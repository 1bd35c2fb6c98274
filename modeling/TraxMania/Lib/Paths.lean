import TraxMania.Lib.PyText

/-
  Paths: a text is taken apart into a drive, a root and parts, joined to a directory, and walked
  from where the process stands. A walk ends so many steps above its start, and so many names below
  that; where a text leads that ends in a plain file name is settled by the parts before it.

  Nothing here is about a program in particular.
-/

namespace Lib.Paths

/-! ## Walks -/

section

variable {α : Type*} [DecidableEq α] (up : α)

/-- The place that the parts lead to. `up` leads to the parent, and the root is its own parent. -/
def walk (base parts : List α) : List α :=
  parts.foldl (fun place part => if part = up then place.dropLast else place ++ [part]) base

/-- One more part, when the parts so far lead `state.1` steps up and then down `state.2`. -/
def cancelStep (state : Nat × List α) (part : α) : Nat × List α :=
  if part = up then
    if state.2.isEmpty then (state.1 + 1, []) else (state.1, state.2.dropLast)
  else (state.1, state.2 ++ [part])

/-- The parts without their detours: the steps up, and then the names. -/
def cancel (parts : List α) : Nat × List α := parts.foldl (cancelStep up) (0, [])

variable {up}

@[simp] theorem walk_nil (base : List α) : walk up base [] = base := rfl

theorem walk_cons (base : List α) (part : α) (parts : List α) :
    walk up base (part :: parts) =
      walk up (if part = up then base.dropLast else base ++ [part]) parts := rfl

theorem walk_append (base parts parts' : List α) :
    walk up base (parts ++ parts') = walk up (walk up base parts) parts' :=
  List.foldl_append

theorem walk_name (base : List α) {name : α} (h : name ≠ up) :
    walk up base [name] = base ++ [name] := if_neg h

theorem walk_from (base : List α) (parts : List α) (state : Nat × List α) :
    walk up (base.take (base.length - state.1) ++ state.2) parts =
      base.take (base.length - (parts.foldl (cancelStep up) state).1)
        ++ (parts.foldl (cancelStep up) state).2 := by
  induction parts generalizing state with
  | nil => rfl
  | cons part parts ih =>
    rw [List.foldl_cons, walk_cons, ← ih]
    congr 1
    obtain ⟨ups, names⟩ := state
    unfold cancelStep
    by_cases hup : part = up
    · rw [if_pos hup, if_pos hup]
      obtain rfl | hnames := eq_or_ne names []
      · simp only [List.append_nil, List.isEmpty_nil, if_true]
        rw [List.dropLast_eq_take, List.take_take, List.length_take]
        congr 1
        omega
      · rw [if_neg (by simpa using hnames)]
        exact List.dropLast_append_of_ne_nil hnames
    · rw [if_neg hup, if_neg hup, List.append_assoc]

/-- A walk leads up from its start, and then down the names that are left. -/
theorem walk_eq (base parts : List α) :
    walk up base parts =
      base.take (base.length - (cancel up parts).1) ++ (cancel up parts).2 := by
  have h : walk up (base.take (base.length - 0) ++ []) parts = _ := walk_from base parts (0, [])
  rwa [Nat.sub_zero, List.take_length, List.append_nil] at h

theorem walk_root (parts : List α) : walk up [] parts = (cancel up parts).2 := by
  rw [walk_eq, List.take_nil, List.nil_append]

end

/-! ## Flavours -/

open Lib.PyText

/-- How a system reads paths. -/
structure Flavour where
  isSep : Char → Bool
  /-- A separator, or the end of a drive. -/
  isMark : Char → Bool
  /-- The drive, whether a root follows, and the rest. -/
  splitroot : Text → Text × Bool × Text
  /-- Two names are one for the system when this makes them equal. -/
  fold : Text → Text
  mark_of_sep : ∀ c, isSep c → isMark c
  /-- The rest begins at the start of the text or after a mark, or all of the text is a drive with
      its root. -/
  cuts : ∀ text, ((splitroot text).2.1 ∧ (splitroot text).2.2 = []) ∨
    ∃ before, text = before ++ (splitroot text).2.2 ∧ ∀ c ∈ before.getLast?, isMark c

/-- A path without the parts that say nothing. -/
structure PurePath where
  drive : Text
  rooted : Bool
  parts : List Text
deriving DecidableEq

/-- A part that is not empty, and not `.`. -/
def saysSomething (part : Text) : Bool := !part.isEmpty && part != ['.']

theorem saysSomething_of_length {part : Text} (h : 2 < part.length) : saysSomething part := by
  have hnil : part ≠ [] := by
    rintro rfl
    simp at h
  have hdot : part ≠ ['.'] := by
    rintro rfl
    simp at h
  simp [saysSomething, hnil, hdot]

/-- `..`. -/
def parent : Text := ['.', '.']

namespace Flavour

variable (f : Flavour)

/-- The parts of a text, without the empty ones and `.`. -/
def parts (text : Text) : List Text := (text.splitOnP f.isSep).filter saysSomething

/-- The path that a text stands for. -/
def parse (text : Text) : PurePath :=
  let (drive, rooted, rest) := f.splitroot text
  ⟨drive, rooted, f.parts rest⟩

/-- The second path has no drive of its own. -/
def sameDrive (dir path : PurePath) : Bool :=
  path.drive.isEmpty || f.fold path.drive == f.fold dir.drive

/-- `dir / path`. -/
def join (dir path : PurePath) : PurePath :=
  if path.rooted then
    { path with drive := if path.drive.isEmpty then dir.drive else path.drive }
  else if f.sameDrive dir path then { dir with parts := dir.parts ++ path.parts }
  else path

end Flavour

/-- Where the process stands: its drive, and its directory on each drive. -/
structure Cwd where
  drive : Text
  names : Text → List Text

/-- A file or a directory: its drive, and the names from the root. -/
structure Place where
  drive : Text
  names : List Text
deriving DecidableEq

namespace Flavour

variable (f : Flavour) (cwd : Cwd)

/-- The drive of a path. -/
def driveOf (path : PurePath) : Text := if path.drive.isEmpty then cwd.drive else path.drive

/-- The directory that a path starts in. -/
def baseOf (path : PurePath) : List Text :=
  if path.rooted then [] else cwd.names (driveOf cwd path)

/-- The place of a path. No part is taken for a link. -/
def locate (path : PurePath) : Place :=
  ⟨f.fold (driveOf cwd path), (walk parent (baseOf cwd path) path.parts).map f.fold⟩

/-- The path is of something directly in the directory. -/
def DirectlyIn (path dir : PurePath) : Prop :=
  ∃ name, f.locate cwd path =
    ⟨(f.locate cwd dir).drive, (f.locate cwd dir).names ++ [name]⟩

/-- The parts before the last one lead from the directory, or from where the path starts otherwise,
    to the directory. -/
def LeadsBack (dir path : PurePath) : Prop :=
  let here := f.locate cwd dir
  let way := cancel parent path.parts.dropLast
  path.parts ≠ [] ∧
    if path.rooted then
      (path.drive = [] ∨ f.fold path.drive = here.drive) ∧ way.2.map f.fold = here.names
    else if f.sameDrive dir path then
      way.2.map f.fold = here.names.drop (here.names.length - way.1)
    else
      let base := cwd.names path.drive
      f.fold path.drive = here.drive ∧
        (base.take (base.length - way.1) ++ way.2).map f.fold = here.names

variable {f cwd}

/-! ## A text that ends in a plain name -/

section

variable {suffix : Text}

theorem parts_append (hfree : ∀ c ∈ suffix, f.isSep c = false) (hlength : 2 < suffix.length)
    (stem : Text) : ∃ dirs name, f.parts (stem ++ suffix) = dirs ++ [name] ∧ name ≠ parent := by
  obtain ⟨init, last, -, hsplit⟩ := Words.splitOnP_append_free stem hfree
  have hlong : 2 < (last ++ suffix).length := by
    rw [List.length_append]
    omega
  refine ⟨init.filter saysSomething, last ++ suffix, ?_, ?_⟩
  · unfold parts
    rw [hsplit, List.filter_append, List.filter_cons_of_pos (saysSomething_of_length hlong),
      List.filter_nil]
  · intro h
    rw [h] at hlong
    exact absurd hlong (by decide)

/-- Nothing is cut off in the middle of the suffix. -/
theorem parse_append (hfree : ∀ c ∈ suffix, f.isMark c = false) (hlength : 2 < suffix.length)
    (stem : Text) :
    ((f.parse (stem ++ suffix)).rooted ∧ (f.parse (stem ++ suffix)).parts = []) ∨
      ∃ dirs name, (f.parse (stem ++ suffix)).parts = dirs ++ [name] ∧ name ≠ parent := by
  have hsep : ∀ c ∈ suffix, f.isSep c = false := by
    intro c hc
    have hmark := hfree c hc
    by_contra hnot
    rw [f.mark_of_sep c (by simpa using hnot)] at hmark
    cases hmark
  have hparts : (f.parse (stem ++ suffix)).parts =
      f.parts (f.splitroot (stem ++ suffix)).2.2 := rfl
  obtain ⟨hrooted, hnil⟩ | ⟨before, hcut, hmark⟩ := f.cuts (stem ++ suffix)
  · rw [hparts, hnil]
    exact .inl ⟨hrooted, rfl⟩
  · right
    have hends : suffix <:+ (f.splitroot (stem ++ suffix)).2.2 := by
      obtain ⟨middle, rfl, hrest⟩ | ⟨middle, -, hrest⟩ := List.append_eq_append_iff.mp hcut
      · -- a cut inside of the suffix would come after a mark in it
        obtain rfl | ⟨front, c, rfl⟩ := List.eq_nil_or_concat' middle
        · exact ⟨[], hrest⟩
        · have hc := hmark c (by simp)
          rw [hfree c (by rw [hrest]; simp)] at hc
          cases hc
      · exact ⟨middle, hrest.symm⟩
    obtain ⟨rest, hrest⟩ := hends
    rw [hparts, ← hrest]
    exact parts_append hsep hlength rest

/-- A path that ends in a name is of something in the directory exactly when the parts before the
    name lead to the directory. -/
theorem directlyIn_iff {path dir : PurePath} {front : List Text} {name : Text}
    (hparts : path.parts = front ++ [name]) (hname : name ≠ parent) :
    f.DirectlyIn cwd path dir ↔
      f.fold (driveOf cwd path) = (f.locate cwd dir).drive ∧
        (walk parent (baseOf cwd path) front).map f.fold = (f.locate cwd dir).names := by
  have hlocate : f.locate cwd path = ⟨f.fold (driveOf cwd path),
      (walk parent (baseOf cwd path) front).map f.fold ++ [f.fold name]⟩ := by
    unfold locate
    rw [hparts, walk_append, walk_name _ hname, List.map_append]
    rfl
  unfold DirectlyIn
  rw [hlocate]
  constructor
  · rintro ⟨name', h⟩
    obtain ⟨hdrive, hnames⟩ := Place.mk.inj h
    exact ⟨hdrive, (List.append_inj' hnames rfl).1⟩
  · rintro ⟨hdrive, hnames⟩
    exact ⟨f.fold name, by rw [hdrive, hnames]⟩

theorem not_directlyIn_nil {path dir : PurePath} (hrooted : path.rooted) (hparts : path.parts = []) :
    ¬ f.DirectlyIn cwd path dir := by
  rintro ⟨name, h⟩
  have hnames := congrArg Place.names h
  unfold locate baseOf at hnames
  rw [if_pos hrooted, hparts] at hnames
  simp at hnames

/-- Where the names of a walk from the directory lead back to it. -/
theorem map_walk_eq_iff (base front : List Text) :
    (walk parent base front).map f.fold = base.map f.fold ↔
      (cancel parent front).2.map f.fold =
        (base.map f.fold).drop ((base.map f.fold).length - (cancel parent front).1) := by
  rw [walk_eq, List.map_append, List.length_map, List.map_take]
  conv_lhs =>
    rhs
    rw [← List.take_append_drop (base.length - (cancel parent front).1) (base.map f.fold)]
  exact List.append_right_inj _

/-- Where a path leads that is joined to the directory and ends in a name. -/
theorem directlyIn_join_iff_of_parts {dir path : PurePath} {front : List Text} {name : Text}
    (hparts : path.parts = front ++ [name]) (hname : name ≠ parent) :
    f.DirectlyIn cwd (f.join dir path) dir ↔ f.LeadsBack cwd dir path := by
  have hne : path.parts ≠ [] := by
    rw [hparts]
    simp
  have hfront : path.parts.dropLast = front := by
    rw [hparts, List.dropLast_concat]
  unfold LeadsBack join
  simp only [hfront, hne, ne_eq, not_false_eq_true, true_and]
  by_cases hrooted : path.rooted
  · have hparts' : ({ path with
        drive := if path.drive.isEmpty then dir.drive else path.drive } : PurePath).parts =
        front ++ [name] := hparts
    rw [if_pos hrooted, if_pos hrooted, directlyIn_iff hparts' hname]
    unfold baseOf
    rw [if_pos hrooted, walk_root]
    apply and_congr_left'
    unfold driveOf locate
    by_cases hdrive : path.drive = []
    · simp [hdrive, driveOf]
    · simp [hdrive]
  · rw [if_neg hrooted, if_neg hrooted]
    by_cases hsame : f.sameDrive dir path
    · have hparts' : ({ dir with parts := dir.parts ++ path.parts } : PurePath).parts =
          (dir.parts ++ front) ++ [name] := by
        rw [hparts, List.append_assoc]
      rw [if_pos hsame, if_pos hsame, directlyIn_iff hparts' hname, walk_append]
      exact (and_iff_right rfl).trans (map_walk_eq_iff _ _)
    · rw [if_neg hsame, if_neg hsame, directlyIn_iff hparts hname, walk_eq]
      have hdrive : path.drive.isEmpty = false := by
        unfold sameDrive at hsame
        cases h : path.drive.isEmpty with
        | true => simp [h] at hsame
        | false => rfl
      unfold baseOf driveOf
      rw [if_neg hrooted, hdrive]
      rfl

/-- Where a text leads that is joined to a directory and ends in a plain name. -/
theorem directlyIn_join_iff (hfree : ∀ c ∈ suffix, f.isMark c = false)
    (hlength : 2 < suffix.length) (dir : PurePath) (stem : Text) :
    f.DirectlyIn cwd (f.join dir (f.parse (stem ++ suffix))) dir ↔
      f.LeadsBack cwd dir (f.parse (stem ++ suffix)) := by
  obtain ⟨hrooted, hnil⟩ | ⟨dirs, name, hparts, hname⟩ := parse_append hfree hlength stem
  · apply iff_of_false _ (fun h => h.1 hnil)
    unfold join
    rw [if_pos hrooted]
    exact not_directlyIn_nil hrooted hnil
  · exact directlyIn_join_iff_of_parts hparts hname

end

end Flavour

/-! ## The flavours of the two systems -/

/-- `posixpath`. -/
def posix : Flavour where
  isSep c := c == '/'
  isMark c := c == '/'
  splitroot
    | '/' :: rest => ([], true, rest)
    | text => ([], false, text)
  fold := id
  mark_of_sep _ h := h
  cuts text := by
    split
    · next rest => exact .inr ⟨['/'], rfl, by simp⟩
    · exact .inr ⟨[], rfl, by simp⟩

namespace Windows

/-- `\` or `/`. -/
def isSep (c : Char) : Bool := c == '\\' || c == '/'

/-- Where the server of a share begins: after `\\`, or after `\\?\UNC\`. -/
def serverStart (text : Text) : Nat :=
  if (text.take 8).map (fun c => if c = '/' then '\\' else c.toUpper) = "\\\\?\\UNC\\".toList then 8
  else 2

/-- `splitroot` of a text with two separators at its start: a server and its share are the drive,
    which always has its root. -/
def splitShare (text : Text) : Text × Bool × Text :=
  match (text.drop (serverStart text)).dropWhile (!isSep ·) with
  | [] => (text, true, [])
  | _ :: share =>
    match share.dropWhile (!isSep ·) with
    | [] => (text, true, [])
    | _ :: rest => (text.take (text.length - rest.length - 1), true, rest)

/-- `splitroot(text)`. -/
def splitroot : Text → Text × Bool × Text
  | [] => ([], false, [])
  | [a] => if isSep a then ([], true, []) else ([], false, [a])
  | a :: b :: rest =>
    if isSep a then
      if isSep b then splitShare (a :: b :: rest) else ([], true, b :: rest)
    else if b = ':' then
      match rest with
      | [] => ([a, b], false, [])
      | c :: rest' => if isSep c then ([a, b], true, rest') else ([a, b], false, c :: rest')
    else ([], false, a :: b :: rest)

theorem dropWhile_eq_cons {α : Type*} {p : α → Bool} {text rest : List α} {c : α}
    (h : text.dropWhile p = c :: rest) : ∃ front, text = front ++ c :: rest ∧ p c = false := by
  refine ⟨text.takeWhile p, ?_, ?_⟩
  · rw [← h, List.takeWhile_append_dropWhile]
  · have hc := List.head?_dropWhile_not p text
    rwa [h] at hc

/-- The rest of a share comes after a separator. -/
theorem splitShare_cuts (text : Text) :
    ((splitShare text).2.1 ∧ (splitShare text).2.2 = []) ∨
      ∃ before, text = before ++ (splitShare text).2.2 ∧ ∀ c ∈ before.getLast?, isSep c := by
  unfold splitShare
  split
  · exact .inl ⟨rfl, rfl⟩
  · next s share hserver =>
    split
    · exact .inl ⟨rfl, rfl⟩
    · next c rest hshare =>
      right
      obtain ⟨server, htail, -⟩ := dropWhile_eq_cons hserver
      obtain ⟨name, hrest, hc⟩ := dropWhile_eq_cons hshare
      refine ⟨text.take (serverStart text) ++ server ++ s :: name ++ [c], ?_, ?_⟩
      · calc text = text.take (serverStart text) ++ text.drop (serverStart text) := by
              rw [List.take_append_drop]
          _ = text.take (serverStart text) ++ server ++ s :: name ++ [c] ++ rest := by
              rw [htail, hrest]
              simp
      · rw [List.getLast?_concat]
        simpa using hc

/-- The rest comes after a separator, or after the colon of a drive. -/
theorem splitroot_cuts (text : Text) :
    ((splitroot text).2.1 ∧ (splitroot text).2.2 = []) ∨
      ∃ before, text = before ++ (splitroot text).2.2 ∧
        ∀ c ∈ before.getLast?, isSep c || c == ':' := by
  match text with
  | [] => exact .inr ⟨[], rfl, by simp⟩
  | [a] =>
    by_cases ha : isSep a
    · simp [splitroot, ha]
    · simp [splitroot, ha]
  | a :: b :: rest =>
    rw [splitroot.eq_def]
    dsimp only
    by_cases ha : isSep a
    · rw [if_pos ha]
      by_cases hb : isSep b
      · rw [if_pos hb]
        obtain hall | ⟨before, htext, hbefore⟩ := splitShare_cuts (a :: b :: rest)
        · exact .inl hall
        · exact .inr ⟨before, htext, fun c hc => by rw [hbefore c hc, Bool.true_or]⟩
      · rw [if_neg hb]
        exact .inr ⟨[a], rfl, by simp [ha]⟩
    · rw [if_neg ha]
      by_cases hb : b = ':'
      · rw [if_pos hb]
        cases rest with
        | nil => exact .inr ⟨[a, b], rfl, by simp [hb]⟩
        | cons c rest =>
          by_cases hc : isSep c
          · simp only [if_pos hc]
            exact .inr ⟨[a, b, c], rfl, by simp [hc]⟩
          · simp only [if_neg hc]
            exact .inr ⟨[a, b], rfl, by simp [hb]⟩
      · rw [if_neg hb]
        exact .inr ⟨[], rfl, by simp⟩

end Windows

/-- `ntpath`. `lower` makes the spellings of a name equal. -/
def windows (lower : Text → Text) : Flavour where
  isSep := Windows.isSep
  isMark c := Windows.isSep c || c == ':'
  splitroot := Windows.splitroot
  fold := lower
  mark_of_sep c h := by rw [h, Bool.true_or]
  cuts := Windows.splitroot_cuts

end Lib.Paths
