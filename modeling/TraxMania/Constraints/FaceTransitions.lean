import TraxMania.Constraints.ClipPorts
import TraxMania.Constraints.RouteSequences
import TraxMania.Lib.Overwrite

/-
  `constraints/face_transitions.py`: how often clips of two block types meet, per relative rotation.

  The ports of a map are held by cell and face, and a face holds one port. Of several clips on a face
  and of several placements on a cell only the port that is written last takes part.
-/

namespace TraxMania.FaceTransitions

open TraxMania.Grid TraxMania.Catalogue TraxMania.Constraints.RouteSequences Lib
open TraxMania.Constraints (Port get?_foldl_rotations get?_foldl_blocks twoClips)

/-! ## The ports of the catalogue -/

/-- `local`: without `route_clips` every clip counts. -/
def localPorts (routeClips : Option (Finset String)) (v : BlockVariant) : List UnitPort :=
  v.sidePorts.filter fun p => routeClips.all fun clips => decide (p.clipId ∈ clips)

/-- `ports`: the local ports at a rotation. -/
def turnedPorts (routeClips : Option (Finset String)) (v : BlockVariant) (rotation : Fin 4) :
    List Port :=
  (localPorts routeClips v).map fun p =>
    ⟨rotateOffset p.offset rotation.val v.size, rotateFace p.face rotation.val, p.clipId⟩

/-- The entries of one block. -/
def portIndexTurn (routeClips : Option (Finset String)) (index : Dict (String × Fin 4) (List Port))
    (item : String × BlockDef) : Dict (String × Fin 4) (List Port) :=
  match item.2.variant "ground" 0 with
  | none => index
  | some v =>
    if localPorts routeClips v = [] then index
    else (List.finRange 4).foldl
      (fun index rotation => index.upsert (item.1, rotation) fun _ =>
        turnedPorts routeClips v rotation) index

/-- `_port_index(catalogue, route_clips)`. -/
def portIndex (catalogue : Dict String BlockDef) (routeClips : Option (Finset String)) :
    Dict (String × Fin 4) (List Port) :=
  catalogue.items.foldl (portIndexTurn routeClips) Dict.empty

/-! ## One map -/

/-- A value of `open_ports`. -/
structure OpenPort where
  block : String
  rotation : Fin 4
  clip : String
deriving DecidableEq

/-- `_TransitionKey`. -/
structure TransitionKey where
  blockA : String
  blockB : String
  clipId : String
  relRotation : Fin 4
  environment : String
deriving DecidableEq

/-- `int(rotation) % 4`. -/
def quarter (rotation : Int) : Fin 4 := ⟨(rotation % 4).toNat, by omega⟩

section Maps

variable (index : Dict (String × Fin 4) (List Port)) (environment : String)

/-- The turn of the loop over the rows of a map. -/
def openPortsTurn (ports : Dict (Cell × Face) OpenPort) (r : Placed) :
    Dict (Cell × Face) OpenPort :=
  match index.get? (r.name, quarter r.rotation) with
  | none => ports
  | some blockPorts =>
    blockPorts.foldl (fun ports p => ports.upsert (r.pos + p.cell, p.face) fun _ =>
      ⟨r.name, quarter r.rotation, p.clip⟩) ports

/-- `open_ports`. -/
def openPorts (rows : List Placed) : Dict (Cell × Face) OpenPort :=
  rows.foldl (openPortsTurn index) Dict.empty

/-- The keys that the loop over `open_ports` counts. -/
def mapKeys (rows : List Placed) : List TransitionKey :=
  (openPorts index rows).items.filterMap fun e =>
    ((openPorts index rows).get? (e.1.1 + faceDelta e.1.2, oppositeFace e.1.2)).bind fun other =>
      if other.clip ≠ e.2.clip then none
      else some ⟨e.2.block, other.block, e.2.clip, other.rotation - e.2.rotation, environment⟩

end Maps

/-! ## All maps -/

/-- `FaceTransitionReport`. -/
structure Report where
  mapsSeen : Nat
  placementsSeen : Nat
  placementsUnknownBlock : Nat
  transitionsCounted : Nat
  rowsWritten : Nat
deriving DecidableEq

/-- `counts`, `map_hits` and `report`. -/
structure BuildState where
  counts : Dict TransitionKey Nat
  mapHits : Dict TransitionKey Nat
  report : Report

/-- `d[key] += 1` for each key. -/
def bumpAll (keys : List TransitionKey) (d : Dict TransitionKey Nat) : Dict TransitionKey Nat :=
  keys.foldl (fun d key => d.upsert key fun old => old.getD 0 + 1) d

section Build

variable (catalogue : Dict String BlockDef) (routeClips : Option (Finset String))

/-- The turn of the loop over the maps. -/
def buildTurn (s : BuildState) (m : String × List Placed) : BuildState :=
  let index := portIndex catalogue routeClips
  let keys := mapKeys index m.1 m.2
  let unknown := m.2.countP fun r =>
    (index.get? (r.name, quarter r.rotation)).isNone && (catalogue.get? r.name).isNone
  ⟨bumpAll keys s.counts, bumpAll keys.dedup s.mapHits,
    { s.report with
      mapsSeen := s.report.mapsSeen + 1
      placementsSeen := s.report.placementsSeen + m.2.length
      placementsUnknownBlock := s.report.placementsUnknownBlock + unknown
      transitionsCounted := s.report.transitionsCounted + keys.length }⟩

/-- The rows `(key, transition_count, map_count)` of the upserts, and the report, for maps with an
    environment and rows each. -/
def buildFaceTransitions (maps : List (String × List Placed)) :
    List (TransitionKey × Nat × Nat) × Report :=
  let s := maps.foldl (buildTurn catalogue routeClips)
    ⟨Dict.empty, Dict.empty, ⟨0, 0, 0, 0, 0⟩⟩
  (s.counts.items.map fun e => (e.1, e.2, (s.mapHits.get? e.1).getD 0),
    { s.report with rowsWritten := s.report.rowsWritten + s.counts.items.length })

end Build

/-! ## Ports -/

/-- A port of a placed block. -/
structure WorldPort where
  cell : Cell
  face : Face
  port : OpenPort
deriving DecidableEq

/-- Where a port is. -/
def WorldPort.place (p : WorldPort) : Cell × Face := (p.cell, p.face)

section Ports

variable (catalogue : Dict String BlockDef) (routeClips : Option (Finset String))

/-- The ports of a placement. -/
def worldPorts (r : Placed) : List WorldPort :=
  match (catalogue.get? r.name).bind fun block => block.variant "ground" 0 with
  | none => []
  | some v => (turnedPorts routeClips v (quarter r.rotation)).map fun p =>
      ⟨r.pos + p.cell, p.face, ⟨r.name, quarter r.rotation, p.clip⟩⟩

/-- The ports of a map. -/
def mapPorts (rows : List Placed) : List WorldPort := rows.flatMap (worldPorts catalogue routeClips)

/-- Two ports lie in face-adjacent cells on opposite faces, and carry one clip. -/
def PortsMeet (p q : WorldPort) : Prop :=
  q.cell = p.cell + faceDelta p.face ∧ q.face = oppositeFace p.face ∧ q.port.clip = p.port.clip

instance (p q : WorldPort) : Decidable (PortsMeet p q) :=
  inferInstanceAs (Decidable (_ ∧ _ ∧ _))

/-- The transition of two ports that meet. -/
def meetKey (environment : String) (p q : WorldPort) : Option TransitionKey :=
  if PortsMeet p q then
    some ⟨p.port.block, q.port.block, p.port.clip, q.port.rotation - p.port.rotation, environment⟩
  else none

/-- The transitions of the ordered pairs of ports that meet. -/
def meetings (environment : String) (ports : List WorldPort) : List TransitionKey :=
  Overwrite.related (meetKey environment) ports ports

/-- The entry of a block at a rotation, if it gets one. -/
def portEntry (block : BlockDef) (rotation : Fin 4) : Option (List Port) :=
  (block.variant "ground" 0).bind fun v =>
    if localPorts routeClips v = [] then none else some (turnedPorts routeClips v rotation)

theorem get?_portIndex (blockId : String) (rotation : Fin 4) :
    (portIndex catalogue routeClips).get? (blockId, rotation) =
      (catalogue.get? blockId).bind fun block => portEntry routeClips block rotation := by
  refine get?_foldl_blocks (portEntry routeClips) blockId rotation (fun index item => ?_) catalogue
  unfold portIndexTurn portEntry
  cases item.2.variant "ground" 0 with
  | none => rw [Option.bind_none, Option.none_or, ite_self]
  | some v =>
    rw [Option.bind_some]
    dsimp only
    split
    · rw [Option.none_or, ite_self]
    · rw [get?_foldl_rotations, Option.some_or]

/-- `open_ports` is written port by port. -/
theorem openPorts_eq (rows : List Placed) :
    openPorts (portIndex catalogue routeClips) rows =
      (mapPorts catalogue routeClips rows).foldl
        (fun ports p => ports.upsert p.place fun _ => p.port) Dict.empty := by
  unfold openPorts mapPorts
  rw [List.foldl_flatMap]
  congr 1
  funext ports r
  unfold openPortsTurn worldPorts
  rw [get?_portIndex]
  unfold portEntry
  cases catalogue.get? r.name with
  | none => rfl
  | some block =>
    rw [Option.bind_some, Option.bind_some]
    cases block.variant "ground" 0 with
    | none => rfl
    | some v =>
      rw [Option.bind_some]
      dsimp only
      rw [List.foldl_map]
      split
      · next hnone =>
        have hnil : localPorts routeClips v = [] := by
          by_contra hne
          rw [if_neg hne] at hnone
          cases hnone
        unfold turnedPorts
        rw [hnil]
        rfl
      · next blockPorts hsome =>
        have hne : localPorts routeClips v ≠ [] := by
          intro hnil
          rw [if_pos hnil] at hsome
          cases hsome
        rw [if_neg hne] at hsome
        rw [← Option.some.inj hsome]
        rfl

/-- The keys of a map are the transitions of the ports that are kept. -/
theorem mapKeys_perm (environment : String) (rows : List Placed) :
    (mapKeys (portIndex catalogue routeClips) environment rows).Perm
      (meetings environment
        (Overwrite.kept WorldPort.place (mapPorts catalogue routeClips rows))) := by
  have hitems := Overwrite.items_foldl_overwrite WorldPort.place WorldPort.port
    (mapPorts catalogue routeClips rows)
  unfold mapKeys
  rw [openPorts_eq]
  generalize (mapPorts catalogue routeClips rows).foldl
    (fun ports p => ports.upsert p.place fun _ => p.port) Dict.empty = ports at hitems
  -- A look-up is a scan of all entries for those that meet.
  have hscan : (ports.items.filterMap fun e =>
      (ports.get? (e.1.1 + faceDelta e.1.2, oppositeFace e.1.2)).bind fun other =>
        if other.clip ≠ e.2.clip then none
        else some (⟨e.2.block, other.block, e.2.clip, other.rotation - e.2.rotation,
          environment⟩ : TransitionKey)) =
      Overwrite.related (fun e e' : (Cell × Face) × OpenPort =>
        meetKey environment ⟨e.1.1, e.1.2, e.2⟩ ⟨e'.1.1, e'.1.2, e'.2⟩) ports.items ports.items := by
    unfold Overwrite.related
    rw [List.filterMap_eq_flatMap_toList]
    refine List.flatMap_congr fun e _ => ?_
    rw [← Dict.filterMap_items_key]
    refine List.filterMap_congr fun e' _ => ?_
    have hmeet : PortsMeet ⟨e.1.1, e.1.2, e.2⟩ ⟨e'.1.1, e'.1.2, e'.2⟩ ↔
        e'.1 = (e.1.1 + faceDelta e.1.2, oppositeFace e.1.2) ∧ e'.2.clip = e.2.clip := by
      unfold PortsMeet
      rw [Prod.ext_iff, and_assoc]
    show _ = meetKey environment ⟨e.1.1, e.1.2, e.2⟩ ⟨e'.1.1, e'.1.2, e'.2⟩
    unfold meetKey
    by_cases hplace : e'.1 = (e.1.1 + faceDelta e.1.2, oppositeFace e.1.2)
    · rw [if_pos hplace]
      by_cases hclip : e'.2.clip = e.2.clip
      · rw [if_neg (not_not.mpr hclip), if_pos (hmeet.mpr ⟨hplace, hclip⟩)]
      · rw [if_pos hclip, if_neg fun h => hclip (hmeet.mp h).2]
    · rw [if_neg hplace, if_neg fun h => hplace (hmeet.mp h).1]
  rw [hscan]
  refine (Overwrite.related_perm hitems hitems).trans ?_
  rw [Overwrite.related_map]
  exact List.Perm.refl _

/-! ## Meetings -/

theorem PortsMeet.symm {p q : WorldPort} (h : PortsMeet p q) : PortsMeet q p := by
  obtain ⟨hcell, hface, hclip⟩ := h
  refine ⟨?_, ?_, hclip.symm⟩
  · rw [hcell, hface, faceDelta_opposite]
  · rw [hface]
    have hback : ∀ f : Face, oppositeFace (oppositeFace f) = f := by decide
    exact (hback p.face).symm

/-- The same transition, read from the other block. -/
def TransitionKey.swap (K : TransitionKey) : TransitionKey :=
  ⟨K.blockB, K.blockA, K.clipId, -K.relRotation, K.environment⟩

theorem TransitionKey.swap_swap (K : TransitionKey) : K.swap.swap = K := by
  have hneg : ∀ rel : Fin 4, -(-rel) = rel := by decide
  unfold TransitionKey.swap
  dsimp only
  rw [hneg]

theorem meetKey_swap (environment : String) (p q : WorldPort) :
    meetKey environment q p = (meetKey environment p q).map TransitionKey.swap := by
  unfold meetKey
  by_cases h : PortsMeet p q
  · rw [if_pos h, if_pos h.symm, Option.map_some]
    have hneg : ∀ a b : Fin 4, -(a - b) = b - a := by decide
    unfold TransitionKey.swap
    dsimp only
    rw [hneg, h.2.2]
  · rw [if_neg h, if_neg fun h' => h h'.symm, Option.map_none]

theorem meetKey_eq_none_iff {environment : String} {p q : WorldPort} :
    meetKey environment p q = none ↔ ¬ PortsMeet p q := by
  unfold meetKey
  split
  · next h => simp [h]
  · next h => simp [h]

/-- Meetings are seen from both ports. -/
theorem count_meetings_swap (environment : String) (ports : List WorldPort) (K : TransitionKey) :
    (meetings environment ports).count K = (meetings environment ports).count K.swap := by
  have hinj : Function.Injective TransitionKey.swap := by
    intro K K' h
    rw [← K.swap_swap, h, K'.swap_swap]
  have hswap : (meetings environment ports).Perm
      ((meetings environment ports).map TransitionKey.swap) := by
    unfold meetings
    refine (Overwrite.related_swap ports ports).trans ?_
    unfold Overwrite.related
    rw [List.map_flatMap]
    refine List.Perm.of_eq (List.flatMap_congr fun p _ => ?_)
    rw [List.map_filterMap]
    exact List.filterMap_congr fun q _ => meetKey_swap environment p q
  rw [hswap.count_eq K.swap]
  exact (List.count_map_of_injective _ _ hinj K).symm

/-- What a map contributes to a count. -/
def contribution (environment : String) (rows : List Placed) (K : TransitionKey) : Nat :=
  (mapKeys (portIndex catalogue routeClips) environment rows).count K

/-- A map contributes the meetings of its ports, the same from both sides and in any order of its
    rows. -/
structure CountsMeetings (environment : String) (rows : List Placed) : Prop where
  counts : ∀ K, contribution catalogue routeClips environment rows K =
    (meetings environment (mapPorts catalogue routeClips rows)).count K
  symmetric : ∀ K, contribution catalogue routeClips environment rows K =
    contribution catalogue routeClips environment rows K.swap
  orderFree : ∀ rows', rows'.Perm rows → ∀ K,
    contribution catalogue routeClips environment rows' K =
      contribution catalogue routeClips environment rows K

/-- No port that meets another shares its face with a later port of its placement or with a port of
    another placement. -/
def NoneHidden (rows : List Placed) : Prop :=
  ∀ before r after, rows = before ++ r :: after →
    ∀ pre p post, worldPorts catalogue routeClips r = pre ++ p :: post →
      (∃ q ∈ mapPorts catalogue routeClips rows, PortsMeet p q) →
      ∀ p' ∈ post ++ mapPorts catalogue routeClips (before ++ after), p'.place ≠ p.place

variable {catalogue routeClips}

theorem mapPorts_perm {rows rows' : List Placed} (h : rows.Perm rows') :
    (mapPorts catalogue routeClips rows).Perm (mapPorts catalogue routeClips rows') :=
  List.Perm.flatMap_right _ h

/-- The counts are right just where no hidden port meets another. -/
theorem contribution_eq_iff (environment : String) (rows : List Placed) :
    (∀ K, contribution catalogue routeClips environment rows K =
        (meetings environment (mapPorts catalogue routeClips rows)).count K) ↔
      ∀ p ∈ Overwrite.hidden WorldPort.place (mapPorts catalogue routeClips rows),
        ∀ q ∈ mapPorts catalogue routeClips rows, ¬ PortsMeet p q := by
  have hkeys := mapKeys_perm catalogue routeClips environment rows
  have hrelated := Overwrite.perm_related_iff (f := meetKey environment)
    (Overwrite.perm_kept_hidden WorldPort.place (mapPorts catalogue routeClips rows))
  unfold contribution
  rw [← List.perm_iff_count]
  constructor
  · intro hperm p hp q hq
    exact meetKey_eq_none_iff.mp (hrelated.mp (hkeys.symm.trans hperm) p hp q hq).1
  · intro hnone
    refine hkeys.trans (hrelated.mpr fun p hp q hq => ?_)
    have hpq := hnone p hp q hq
    exact ⟨meetKey_eq_none_iff.mpr hpq, meetKey_eq_none_iff.mpr fun h => hpq h.symm⟩

/-- A port in the list of a map belongs to a placement. -/
theorem exists_row_of_mapPorts {rows : List Placed} {pre post : List WorldPort} {p : WorldPort}
    (h : mapPorts catalogue routeClips rows = pre ++ p :: post) :
    ∃ before r after pre' post', rows = before ++ r :: after ∧
      worldPorts catalogue routeClips r = pre' ++ p :: post' ∧
      post = post' ++ mapPorts catalogue routeClips after := by
  induction rows generalizing pre with
  | nil =>
    unfold mapPorts at h
    simp at h
  | cons r rows ih =>
    have hcons : mapPorts catalogue routeClips (r :: rows) =
        worldPorts catalogue routeClips r ++ mapPorts catalogue routeClips rows := rfl
    rw [hcons] at h
    rcases List.append_eq_append_iff.mp h with ⟨pre', rfl, hrest⟩ | ⟨post', hr, hpost⟩
    · obtain ⟨before, r', after, pre'', post', rfl, hports, hpost⟩ := ih hrest
      exact ⟨r :: before, r', after, pre'', post', rfl, hports, hpost⟩
    · rcases List.cons_eq_append_iff.mp hpost with ⟨rfl, hrest⟩ | ⟨post', rfl, rfl⟩
      · obtain ⟨before, r', after, pre'', post', rfl, hports, hpost⟩ := @ih [] hrest
        exact ⟨r :: before, r', after, pre'', post', rfl, hports, hpost⟩
      · exact ⟨[], r, rows, pre, post', rfl, hr, rfl⟩

/-- The condition does not read the order of the rows. -/
theorem NoneHidden.of_perm {rows rows' : List Placed} (h : NoneHidden catalogue routeClips rows)
    (hperm : rows'.Perm rows) : NoneHidden catalogue routeClips rows' := by
  rintro before r after rfl pre p post hports ⟨q, hq, hmeet⟩ p' hp'
  obtain ⟨before', after', rfl⟩ :=
    List.append_of_mem (hperm.mem_iff.mp (List.mem_append_right before List.mem_cons_self))
  have hothers : (before ++ after).Perm (before' ++ after') := by
    have hcons := (List.perm_middle (a := r)).symm.trans (hperm.trans List.perm_middle)
    exact hcons.cons_inv
  refine h before' r after' rfl pre p post hports
    ⟨q, (mapPorts_perm hperm).mem_iff.mp hq, hmeet⟩ p' ?_
  rcases List.mem_append.mp hp' with hp' | hp'
  · exact List.mem_append_left _ hp'
  · exact List.mem_append_right _ ((mapPorts_perm hothers).mem_iff.mp hp')

theorem NoneHidden.contribution_eq {rows : List Placed}
    (h : NoneHidden catalogue routeClips rows) (environment : String) (K : TransitionKey) :
    contribution catalogue routeClips environment rows K =
      (meetings environment (mapPorts catalogue routeClips rows)).count K := by
  refine (contribution_eq_iff environment rows).mpr (fun p hp q hq hmeet => ?_) K
  obtain ⟨pre, post, heq, p', hp', hplace⟩ := Overwrite.mem_hidden.mp hp
  obtain ⟨before, r, after, pre', post', rfl, hports, rfl⟩ := exists_row_of_mapPorts heq
  refine h before r after rfl pre' p post' hports ⟨q, hq, hmeet⟩ p' ?_ hplace
  rcases List.mem_append.mp hp' with hp' | hp'
  · exact List.mem_append_left _ hp'
  · obtain ⟨r', hr', hp'⟩ := List.mem_flatMap.mp hp'
    exact List.mem_append_right _
      (List.mem_flatMap.mpr ⟨r', List.mem_append_right before hr', hp'⟩)

/-- A map contributes the meetings of its ports if and only if none of those that meet shares its
    face with a port that may be written after it. -/
theorem counts_meetings_iff (environment : String) (rows : List Placed) :
    CountsMeetings catalogue routeClips environment rows ↔
      NoneHidden catalogue routeClips rows := by
  constructor
  · rintro ⟨hcounts, -, horder⟩ before r after rfl pre p post hports ⟨q, hq, hmeet⟩ p' hp' hplace
    -- With the row of the port first, every other port may hide it.
    have hperm : (r :: (before ++ after)).Perm (before ++ r :: after) := List.perm_middle.symm
    have hmeetings : (meetings environment
        (mapPorts catalogue routeClips (r :: (before ++ after)))).Perm
        (meetings environment (mapPorts catalogue routeClips (before ++ r :: after))) :=
      Overwrite.related_perm (mapPorts_perm hperm) (mapPorts_perm hperm)
    have hfirst := (contribution_eq_iff environment (r :: (before ++ after))).mp
      fun K => by rw [horder _ hperm K, hcounts K, hmeetings.count_eq K]
    refine hfirst p (Overwrite.mem_hidden.mpr ⟨pre, post ++ mapPorts catalogue routeClips
      (before ++ after), ?_, p', hp', hplace⟩) q ((mapPorts_perm hperm).mem_iff.mpr hq) hmeet
    have hcons : mapPorts catalogue routeClips (r :: (before ++ after)) =
        worldPorts catalogue routeClips r ++
          mapPorts catalogue routeClips (before ++ after) := rfl
    rw [hcons, hports, List.append_assoc, List.cons_append]
  · intro h
    refine ⟨h.contribution_eq environment, fun K => ?_, fun rows' hperm K => ?_⟩
    · rw [h.contribution_eq environment K, h.contribution_eq environment K.swap]
      exact count_meetings_swap environment _ K
    · rw [h.contribution_eq environment K, (h.of_perm hperm).contribution_eq environment K]
      exact (Overwrite.related_perm (mapPorts_perm hperm) (mapPorts_perm hperm)).count_eq K

end Ports

/-- A road that looks at a face with two clips; the clip of the road is the one listed first. -/
def crossRows : List Placed := [⟨"Road", 0, ⟨24, 9, 24⟩⟩, ⟨"Cross", 0, ⟨24, 9, 25⟩⟩]

/-- The clips meet, but the map contributes nothing. -/
theorem cross_not_counted :
    contribution twoClips none "Stadium" crossRows ⟨"Road", "Cross", "RoadTech", 0, "Stadium"⟩ = 0 ∧
      (meetings "Stadium" (mapPorts twoClips none crossRows)).count
        ⟨"Road", "Cross", "RoadTech", 0, "Stadium"⟩ = 1 ∧
      ¬ CountsMeetings twoClips none "Stadium" crossRows := by
  have hcontribution : contribution twoClips none "Stadium" crossRows
      ⟨"Road", "Cross", "RoadTech", 0, "Stadium"⟩ = 0 := by decide +kernel
  have hmeetings : (meetings "Stadium" (mapPorts twoClips none crossRows)).count
      ⟨"Road", "Cross", "RoadTech", 0, "Stadium"⟩ = 1 := by decide +kernel
  refine ⟨hcontribution, hmeetings, fun h => ?_⟩
  have hcount := h.counts ⟨"Road", "Cross", "RoadTech", 0, "Stadium"⟩
  rw [hcontribution, hmeetings] at hcount
  cases hcount

end TraxMania.FaceTransitions
