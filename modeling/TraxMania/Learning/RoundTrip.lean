import TraxMania.Learning.ConstructionExport

/-
  The round trip of the construction text. `serialize` gives up a blank for one escape character and
  nothing else, while `parse` splits a line at every white space: the line is read back exactly when
  every block has a name and no white space but blanks.

  `parse` accepts more lines than `serialize` writes (without a header, with signs, underscores and
  digits of any script), but every token it returns is one that `serialize` writes and `parse` reads
  back.

  A generated line is cut to its longest prefix that parses, once where samples are counted
  (`parse_prefix` of `tools/sample_construction_lm.py`) and once where maps are built
  (`_parse_lenient` of `tools/realise_generated_map.py`). The first is that prefix behind a leading
  fragment for every line; `sameTokens_iff` says for which lines the second agrees.
-/

namespace TraxMania.Learning

open Lib.Outcome Lib.PyText Lib.Words

variable {repr : Text → String}

/-! ## Tokens -/

/-- Three deltas, a rotation of a quarter turn, a free flag, and a back-reference that goes back. -/
def Token.WellFormed : Token → Prop
  | .place _ d rot free => d.length = 3 ∧ (∃ r, rot = some r ∧ 0 ≤ r ∧ r ≤ 3) ∧ ∃ f, free = some f
  | .revisit back => 1 ≤ back
  | .jump => True
  | .gap => True
  | .other _ => False

/-- A block that a line can carry: it has a name, whose only white space is the blank. -/
def ReadableName (block : Text) : Prop := block ≠ [] ∧ ∀ c ∈ block, isSpace c → c = ' '

/-- The token has no block, or one that a line can carry. -/
def Token.Readable : Token → Prop
  | .place block _ _ _ => ReadableName block
  | _ => True

/-! ## Names -/

theorem isSpace_blank : isSpace ' ' = true := by decide

theorem isSpace_escapeChar : isSpace escapeChar = false := by decide

theorem escape_eq_ok {block name : Text} (h : escape repr block = .ok name) :
    escapeChar ∉ block ∧ name = block.map fun c => if c = ' ' then escapeChar else c := by
  unfold escape at h
  by_cases hmem : escapeChar ∈ block
  · rw [if_pos hmem] at h
    cases h
  · rw [if_neg hmem] at h
    exact ⟨hmem, (Except.ok.inj h).symm⟩

/-- A name without the escape character comes back. -/
theorem unescape_escape {block name : Text} (h : escape repr block = .ok name) :
    unescape name = block := by
  obtain ⟨hfree, rfl⟩ := escape_eq_ok h
  unfold unescape
  rw [List.map_map]
  apply (List.map_congr_left _).trans (List.map_id block)
  intro c hc
  show (if (if c = ' ' then escapeChar else c) = escapeChar then ' ' else
    if c = ' ' then escapeChar else c) = c
  by_cases hblank : c = ' '
  · rw [if_pos hblank, if_pos rfl, hblank]
  · have hne : c ≠ escapeChar := by
      intro heq
      rw [heq] at hc
      exact hfree hc
    rw [if_neg hblank, if_neg hne]

theorem isWord_escape {block name : Text} (h : escape repr block = .ok name)
    (hname : ReadableName block) : IsWord isSpace name := by
  obtain ⟨-, rfl⟩ := escape_eq_ok h
  refine ⟨by simpa using hname.1, ?_⟩
  intro c hc
  obtain ⟨d, hd, rfl⟩ := List.mem_map.mp hc
  by_cases hblank : d = ' '
  · rw [if_pos hblank]
    exact isSpace_escapeChar
  · rw [if_neg hblank]
    have hspace := mt (hname.2 d hd) hblank
    simpa using hspace

/-- Whatever a word is read as is a block that a line can carry. -/
theorem readableName_unescape {name : Text} (h : IsWord isSpace name) :
    ReadableName (unescape name) := by
  unfold unescape
  refine ⟨by simpa using h.ne_nil, ?_⟩
  intro c hc hspace
  obtain ⟨d, hd, rfl⟩ := List.mem_map.mp hc
  by_cases hescape : d = escapeChar
  · rw [if_pos hescape]
  · rw [if_neg hescape] at hspace ⊢
    rw [h.free d hd] at hspace
    cases hspace

/-! ## One token -/

theorem str_eq_ok {n : Int} {text : Text} (h : str n = .ok text) :
    readInt text = some n ∧ IsWord isSpace text := by
  unfold str at h
  cases htext : intText n with
  | none =>
      rw [htext] at h
      cases h
  | some digits =>
      rw [htext] at h
      obtain rfl := Except.ok.inj h
      exact ⟨readInt_intText htext, isWord_intText htext⟩

/-! ## One step of the parser -/

theorem parseFields_place (i : Nat) {op : Text} (hop : op = ['P'] ∨ op = ['F'])
    (name dx dy dz rot : Text) (fields : List Text) :
    parseFields repr i (op :: name :: dx :: dy :: dz :: rot :: fields) =
      placement i op name dx dy dz rot >>= fun token =>
        parseFields repr (i + 6) fields >>= fun tokens => .ok (token :: tokens) := by
  rw [parseFields.eq_def]
  exact if_pos hop

theorem parseFields_revisit (i : Nat) (arg : Text) (fields : List Text) :
    parseFields repr i (['V'] :: arg :: fields) =
      backReference arg >>= fun token =>
        parseFields repr (i + 2) fields >>= fun tokens => .ok (token :: tokens) := by
  rw [parseFields.eq_def]
  rfl

theorem parseFields_jump (i : Nat) (fields : List Text) :
    parseFields repr i (['J'] :: fields) =
      parseFields repr (i + 1) fields >>= fun tokens => .ok (.jump :: tokens) := by
  rw [parseFields.eq_def]
  rfl

theorem parseFields_gap (i : Nat) (fields : List Text) :
    parseFields repr i (['G'] :: fields) =
      parseFields repr (i + 1) fields >>= fun tokens => .ok (.gap :: tokens) := by
  rw [parseFields.eq_def]
  rfl

/-! ## Reading one token back -/

/-- The fields of a part are read as its token, and leave the fields behind it. -/
def ReadsAs (repr : Text → String) (text : Text) (token : Token) : Prop :=
  ∀ fields tokens, (∀ i, parseFields repr i fields = .ok tokens) →
    ∀ i, parseFields repr i (words isSpace text ++ fields) = .ok (token :: tokens)

theorem placement_eq_ok {i : Nat} {op name dx dy dz rot : Text} {x y z r : Int}
    (hx : readInt dx = some x) (hy : readInt dy = some y) (hz : readInt dz = some z)
    (hrot : readInt rot = some r) (hr : 0 ≤ r ∧ r ≤ 3) :
    placement i op name dx dy dz rot =
      .ok (.place (unescape name) [x, y, z] (some r) (some (op == ['F']))) := by
  unfold placement
  rw [hx, hy, hz, hrot]
  exact if_pos hr

/-- The field that tells a free placement from one on the grid. -/
def placeOp (free : Bool) : Text := if some free = some true then ['F'] else ['P']

theorem placeOp_facts (free : Bool) :
    (placeOp free = ['P'] ∨ placeOp free = ['F']) ∧ (placeOp free == ['F']) = free ∧
      IsWord isSpace (placeOp free) := by
  cases free with
  | false => exact ⟨.inl rfl, rfl, isWord_of_all (by simp [placeOp]) rfl⟩
  | true => exact ⟨.inr rfl, rfl, isWord_of_all (by simp [placeOp]) rfl⟩

theorem readsAs_place {block name dx dy dz rot : Text} {x y z r : Int} {free : Bool}
    (hname : escape repr block = .ok name) (hblock : ReadableName block) (hx : str x = .ok dx)
    (hy : str y = .ok dy) (hz : str z = .ok dz) (hrot : str r = .ok rot) (hr : 0 ≤ r ∧ r ≤ 3) :
    ReadsAs repr ([' '].intercalate [placeOp free, name, dx, dy, dz, rot])
      (.place block [x, y, z] (some r) (some free)) := by
  obtain ⟨hop, hfree, hopWord⟩ := placeOp_facts free
  have hwords : ∀ word ∈ [placeOp free, name, dx, dy, dz, rot], IsWord isSpace word := by
    simp only [List.forall_mem_cons]
    exact ⟨hopWord, isWord_escape hname hblock, (str_eq_ok hx).2, (str_eq_ok hy).2,
      (str_eq_ok hz).2, (str_eq_ok hrot).2, by simp⟩
  intro fields tokens hrest i
  rw [words_intercalate_isWord isSpace_blank hwords]
  show parseFields repr i (placeOp free :: name :: dx :: dy :: dz :: rot :: fields) = _
  rw [parseFields_place i hop, placement_eq_ok (str_eq_ok hx).1 (str_eq_ok hy).1 (str_eq_ok hz).1 (str_eq_ok hrot).1 hr,
    unescape_escape hname, hfree, ok_bind, hrest, ok_bind]

theorem readsAs_revisit {back : Int} {arg : Text} (h : str back = .ok arg) (hback : 1 ≤ back) :
    ReadsAs repr ('V' :: ' ' :: arg) (.revisit back) := by
  obtain ⟨hread, harg⟩ := str_eq_ok h
  have hop : IsWord isSpace ['V'] := isWord_of_all (by simp) rfl
  have hwords : words isSpace ('V' :: ' ' :: arg) = [['V'], arg] := by
    show words isSpace (['V'] ++ ' ' :: arg) = _
    rw [words_append_cons _ _ isSpace_blank, words_of_isWord hop, words_of_isWord harg]
    rfl
  have hback' : backReference arg = .ok (.revisit back) := by
    unfold backReference
    rw [hread]
    exact if_pos hback
  intro fields tokens hrest i
  rw [hwords]
  show parseFields repr i (['V'] :: arg :: fields) = _
  rw [parseFields_revisit, hback', ok_bind, hrest, ok_bind]

/-- A token that is one letter. -/
theorem readsAs_letter {c : Char} {token : Token} (hc : isSpace c = false)
    (hparse : ∀ i fields, parseFields repr i ([c] :: fields) =
      parseFields repr (i + 1) fields >>= fun tokens => .ok (token :: tokens)) :
    ReadsAs repr [c] token := by
  intro fields tokens hrest i
  rw [words_of_isWord ⟨by simp, by simpa using hc⟩]
  show parseFields repr i ([c] :: fields) = _
  rw [hparse, hrest, ok_bind]

/-- A well-formed token is read back from its part, if its block can be carried. -/
theorem readsAs_part {token : Token} {text : Text} (h : part repr token = .ok text)
    (hwf : token.WellFormed) (hread : token.Readable) : ReadsAs repr text token := by
  cases token with
  | place block d rot free =>
      obtain ⟨hlen, ⟨r, rfl, hr⟩, f, rfl⟩ := hwf
      obtain ⟨x, y, z, rfl⟩ := List.length_eq_three.mp hlen
      obtain ⟨name, hname, h⟩ := bind_eq_ok.mp h
      obtain ⟨dx, hdx, h⟩ := bind_eq_ok.mp h
      obtain ⟨dy, hdy, h⟩ := bind_eq_ok.mp h
      obtain ⟨dz, hdz, h⟩ := bind_eq_ok.mp h
      obtain ⟨rot, hrot, h⟩ := bind_eq_ok.mp h
      rw [← Except.ok.inj h]
      exact readsAs_place hname hread hdx hdy hdz hrot hr
  | revisit back =>
      obtain ⟨arg, harg, h⟩ := bind_eq_ok.mp h
      rw [← Except.ok.inj h]
      exact readsAs_revisit harg hwf
  | jump =>
      rw [← Except.ok.inj h]
      exact readsAs_letter (by decide) parseFields_jump
  | gap =>
      rw [← Except.ok.inj h]
      exact readsAs_letter (by decide) parseFields_gap
  | other op => exact hwf.elim

/-! ## The line -/

/-- The parts of well-formed tokens, one after the other, are read back. -/
theorem parseFields_parts (tokens : List Token) :
    ∀ parts, tokens.mapM (part repr) = .ok parts → (∀ t ∈ tokens, t.WellFormed) →
      (∀ t ∈ tokens, t.Readable) →
      ∀ i, parseFields repr i (parts.flatMap (words isSpace)) = .ok tokens := by
  induction tokens with
  | nil =>
      intro parts hparts hwf hread i
      rw [← Except.ok.inj hparts]
      rfl
  | cons token tokens ih =>
      intro parts hparts hwf hread
      rw [List.mapM_cons] at hparts
      obtain ⟨text, htext, hparts⟩ := bind_eq_ok.mp hparts
      obtain ⟨texts, htexts, hparts⟩ := bind_eq_ok.mp hparts
      rw [← Except.ok.inj hparts, List.flatMap_cons]
      rw [List.forall_mem_cons] at hwf hread
      exact readsAs_part htext hwf.1 hread.1 _ _ (ih texts htexts hwf.2 hread.2)

theorem isWord_header (places : Nat) : IsWord isSpace ("#len=".toList ++ bucket places) := by
  have hbucket : (bucket places).all (fun c => !isSpace c) = true := by
    unfold bucket lenBuckets
    simp only [List.find?_cons, List.find?_nil]
    cases decide (places < 40) <;> cases decide (places < 100) <;>
      cases decide (places < 10 ^ 9) <;> rfl
  apply isWord_of_all
  · simp
  · rw [List.all_append, hbucket]
    rfl

theorem parse_line (places : Nat) (parts : List Text) :
    parse repr (line places parts) = parseFields repr 1 (parts.flatMap (words isSpace)) := by
  unfold parse line
  rw [words_strip, words_append_cons _ _ isSpace_blank, words_of_isWord (isWord_header places),
    words_intercalate _ isSpace_blank]
  exact if_pos (List.prefix_append _ _)

/-! ## What a parsed line holds -/

/-- The token of a placement has the numbers that its fields are read as. -/
theorem of_placement_eq_ok {i : Nat} {op name dx dy dz rot : Text} {token : Token}
    (h : placement i op name dx dy dz rot = .ok token) :
    ∃ x y z r, readInt dx = some x ∧ readInt dy = some y ∧ readInt dz = some z ∧
      readInt rot = some r ∧ (0 ≤ r ∧ r ≤ 3) ∧
        token = .place (unescape name) [x, y, z] (some r) (some (op == ['F'])) := by
  unfold placement at h
  split at h
  · next x y z r hx hy hz hrot =>
    split at h
    · next hr => exact ⟨x, y, z, r, hx, hy, hz, hrot, hr, (Except.ok.inj h).symm⟩
    · cases h
  · cases h

theorem of_backReference_eq_ok {arg : Text} {token : Token} (h : backReference arg = .ok token) :
    ∃ back, readInt arg = some back ∧ 1 ≤ back ∧ token = .revisit back := by
  unfold backReference at h
  split at h
  · next back hread =>
    split at h
    · next hback => exact ⟨back, hread, hback, (Except.ok.inj h).symm⟩
    · cases h
  · cases h

theorem readable_of_placement {i : Nat} {op name dx dy dz rot : Text} {token : Token}
    (h : placement i op name dx dy dz rot = .ok token) (hname : IsWord isSpace name) :
    token.Readable := by
  obtain ⟨x, y, z, r, -, -, -, -, -, rfl⟩ := of_placement_eq_ok h
  exact readableName_unescape hname

theorem readable_of_backReference {arg : Text} {token : Token}
    (h : backReference arg = .ok token) : token.Readable := by
  obtain ⟨back, -, -, rfl⟩ := of_backReference_eq_ok h
  trivial

/-- A token with a property, and then the tokens behind it. -/
theorem forall_cons_of_bind {P : Token → Prop} {token : Token}
    {rest : Except String (List Token)} {tokens : List Token}
    (h : (rest >>= fun tokens => .ok (token :: tokens)) = .ok tokens) (htoken : P token)
    (hrest : ∀ tokens, rest = .ok tokens → ∀ t ∈ tokens, P t) : ∀ t ∈ tokens, P t := by
  obtain ⟨tail, htail, h⟩ := bind_eq_ok.mp h
  rw [← Except.ok.inj h]
  exact List.forall_mem_cons.mpr ⟨htoken, hrest tail htail⟩

/-- A property of tokens that every branch of the parser gives its token. -/
structure Given (P : Token → Prop) : Prop where
  place : ∀ {i op name dx dy dz rot token}, placement i op name dx dy dz rot = .ok token →
    IsWord isSpace name → P token
  revisit : ∀ {arg token}, backReference arg = .ok token → P token
  jump : P .jump
  gap : P .gap

theorem Given.parseFields {P : Token → Prop} (hP : Given P) (i : Nat) (fields : List Text)
    (hfields : ∀ f ∈ fields, IsWord isSpace f) :
    ∀ tokens, parseFields repr i fields = .ok tokens → ∀ t ∈ tokens, P t := by
  induction i, fields using parseFields.induct with
  | case1 i =>
      intro tokens h
      rw [← Except.ok.inj h]
      simp
  | case2 i op hop name dx dy dz rot fields ih =>
      intro tokens h
      rw [parseFields_place i hop] at h
      obtain ⟨token, htoken, h⟩ := bind_eq_ok.mp h
      have hname := hfields name (by simp)
      exact forall_cons_of_bind h (hP.place htoken hname) (ih fun f hf => hfields f (by simp [hf]))
  | case3 i op fields hop hshort =>
      intro tokens h
      rw [parseFields.eq_def] at h
      simp only [if_pos hop] at h
      cases h
  | case4 i arg fields hop ih =>
      intro tokens h
      rw [parseFields_revisit] at h
      obtain ⟨token, htoken, h⟩ := bind_eq_ok.mp h
      exact forall_cons_of_bind h (hP.revisit htoken) (ih fun f hf => hfields f (by simp [hf]))
  | case5 i hop =>
      intro tokens h
      rw [parseFields.eq_def] at h
      cases h
  | case6 i fields hop hrevisit ih =>
      intro tokens h
      rw [parseFields_jump] at h
      exact forall_cons_of_bind h hP.jump (ih fun f hf => hfields f (by simp [hf]))
  | case7 i fields hop hrevisit hjump ih =>
      intro tokens h
      rw [parseFields_gap] at h
      exact forall_cons_of_bind h hP.gap (ih fun f hf => hfields f (by simp [hf]))
  | case8 i op fields hop hrevisit hjump hgap =>
      intro tokens h
      rw [parseFields.eq_def] at h
      simp only [if_neg hop, if_neg hrevisit, if_neg hjump, if_neg hgap] at h
      cases h

/-- What every branch gives its token holds of every token that `parse` returns. -/
theorem Given.parse {P : Token → Prop} (hP : Given P) {text : Text} {tokens : List Token}
    (h : parse repr text = .ok tokens) : ∀ t ∈ tokens, P t := by
  have hwords : ∀ f ∈ words isSpace (strip isSpace text), IsWord isSpace f := fun f hf =>
    isWord_of_mem hf
  unfold Learning.parse at h
  cases hfields : words isSpace (strip isSpace text) with
  | nil =>
      rw [hfields] at h
      cases h
  | cons field fields =>
      rw [hfields] at h hwords
      by_cases hheader : "#len=".toList <+: field
      · simp only [if_pos hheader] at h
        exact hP.parseFields 1 fields (List.forall_mem_cons.mp hwords).2 tokens h
      · simp only [if_neg hheader] at h
        exact hP.parseFields 0 (field :: fields) hwords tokens h

/-- `parse` returns only blocks that a line can carry. -/
theorem given_readable : Given Token.Readable where
  place := readable_of_placement
  revisit := readable_of_backReference
  jump := trivial
  gap := trivial

/-! ## The round trip -/

/-- Written tokens that are well formed and readable are read back. -/
theorem parse_serialized {tokens : List Token} {text : Text} (h : serialize repr tokens = .ok text)
    (hwf : ∀ t ∈ tokens, t.WellFormed) (hread : ∀ t ∈ tokens, t.Readable) :
    parse repr text = .ok tokens := by
  obtain ⟨parts, hparts, htext⟩ := bind_eq_ok.mp h
  rw [← Except.ok.inj htext, parse_line]
  exact parseFields_parts tokens parts hparts hwf hread 1

/-- The line of well-formed tokens is read back as these tokens exactly when every block has a name
    and no white space but blanks. -/
theorem parse_serialize_iff (repr : Text → String) (tokens : List Token) (text : Text)
    (hserialize : serialize repr tokens = .ok text) (hwf : ∀ t ∈ tokens, t.WellFormed) :
    parse repr text = .ok tokens ↔ ∀ t ∈ tokens, t.Readable := by
  constructor
  · intro h
    exact given_readable.parse h
  · intro hread
    exact parse_serialized hserialize hwf hread

/-- `repr` of a text without quotes and control characters. -/
def plainRepr (text : Text) : String := "'" ++ String.ofList text ++ "'"

/-- A block with blanks, a jump and a revisit come back. -/
theorem blanks_come_back :
    parse plainRepr "#len=short P Road~(x)~~y 0 -1 12 2 J V 3".toList =
      .ok [.place "Road (x)  y".toList [0, -1, 12] (some 2) (some false), .jump, .revisit 3] :=
  (parse_serialize_iff plainRepr
    [.place "Road (x)  y".toList [0, -1, 12] (some 2) (some false), .jump, .revisit 3] _
    (by decide +kernel) (by simp [Token.WellFormed])).mpr
    (by simp [Token.Readable, ReadableName]; decide)

/-- A block with a tab in its name. -/
def tabToken : Token := .place "a\tb".toList [0, 0, 0] (some 0) (some false)

/-- The tab shifts the fields behind it: the line of the token is refused. -/
theorem tab_is_lost :
    ¬ ∀ tokens text, serialize plainRepr tokens = .ok text → (∀ t ∈ tokens, t.WellFormed) →
      parse plainRepr text = .ok tokens := by
  intro h
  have hread := h [tabToken] "#len=short P a\tb 0 0 0 0".toList (by decide +kernel)
    (by simp [tabToken, Token.WellFormed])
  have herror : parse plainRepr "#len=short P a\tb 0 0 0 0".toList =
      .error "bad numbers in P at field 1" := by decide +kernel
  rw [herror] at hread
  cases hread

/-! ## What the parser returns -/

theorem given_wellFormed : Given Token.WellFormed where
  place := by
    intro i op name dx dy dz rot token h _
    obtain ⟨x, y, z, r, -, -, -, -, hr, rfl⟩ := of_placement_eq_ok h
    exact ⟨rfl, ⟨r, rfl, hr⟩, _, rfl⟩
  revisit := by
    intro arg token h
    obtain ⟨back, -, hback, rfl⟩ := of_backReference_eq_ok h
    exact hback
  jump := trivial
  gap := trivial

/-! ## What can be written -/

/-- `serialize` has a part for the token. -/
def Token.Writable (repr : Text → String) (token : Token) : Prop :=
  ∃ text, part repr token = .ok text

/-- No escape character is left in a name that was read. -/
theorem escape_unescape (repr : Text → String) (name : Text) :
    ∃ name', escape repr (unescape name) = .ok name' := by
  have hfree : escapeChar ∉ unescape name := by
    unfold unescape
    intro hmem
    obtain ⟨c, -, hc⟩ := List.mem_map.mp hmem
    by_cases hescape : c = escapeChar
    · rw [if_pos hescape] at hc
      exact absurd hc (by decide)
    · rw [if_neg hescape] at hc
      exact hescape hc
  unfold escape
  rw [if_neg hfree]
  exact ⟨_, rfl⟩

theorem str_of_readInt {text : Text} {n : Int} (h : readInt text = some n) :
    ∃ text', str n = .ok text' := by
  obtain ⟨text', htext'⟩ := intText_of_readInt h
  unfold str
  rw [htext']
  exact ⟨text', rfl⟩

theorem given_writable : Given (Token.Writable repr) where
  place := by
    intro i op name dx dy dz rot token h _
    obtain ⟨x, y, z, r, hx, hy, hz, hrot, -, rfl⟩ := of_placement_eq_ok h
    obtain ⟨name', hname⟩ := escape_unescape repr name
    obtain ⟨dx', hdx⟩ := str_of_readInt hx
    obtain ⟨dy', hdy⟩ := str_of_readInt hy
    obtain ⟨dz', hdz⟩ := str_of_readInt hz
    obtain ⟨rot', hrot'⟩ := str_of_readInt hrot
    refine ⟨_, bind_eq_ok.mpr ⟨name', hname, bind_eq_ok.mpr ⟨dx', hdx, bind_eq_ok.mpr ⟨dy', hdy,
      bind_eq_ok.mpr ⟨dz', hdz, bind_eq_ok.mpr ⟨rot', hrot', rfl⟩⟩⟩⟩⟩⟩
  revisit := by
    intro arg token h
    obtain ⟨back, hread, -, rfl⟩ := of_backReference_eq_ok h
    obtain ⟨text, htext⟩ := str_of_readInt hread
    exact ⟨_, bind_eq_ok.mpr ⟨text, htext, rfl⟩⟩
  jump := ⟨_, rfl⟩
  gap := ⟨_, rfl⟩

theorem serialize_of_writable {tokens : List Token} (h : ∀ t ∈ tokens, t.Writable repr) :
    ∃ text, serialize repr tokens = .ok text := by
  have hparts : ∃ parts, tokens.mapM (part repr) = .ok parts := by
    induction tokens with
    | nil => exact ⟨[], rfl⟩
    | cons token tokens ih =>
      rw [List.forall_mem_cons] at h
      obtain ⟨text, htext⟩ := h.1
      obtain ⟨parts, hparts⟩ := ih h.2
      refine ⟨text :: parts, ?_⟩
      rw [List.mapM_cons, htext, hparts]
      rfl
  obtain ⟨parts, hparts⟩ := hparts
  exact ⟨_, bind_eq_ok.mpr ⟨parts, hparts, rfl⟩⟩

/-! ## The line in canonical form -/

/-- The tokens of every line that `parse` accepts are written, and read back unchanged. -/
theorem parse_canonical (repr : Text → String) (text : Text) (tokens : List Token)
    (h : parse repr text = .ok tokens) :
    ∃ canonical, serialize repr tokens = .ok canonical ∧ parse repr canonical = .ok tokens := by
  obtain ⟨canonical, hcanonical⟩ := serialize_of_writable (given_writable.parse h)
  exact ⟨canonical, hcanonical,
    parse_serialized hcanonical (given_wellFormed.parse h) (given_readable.parse h)⟩

/-- A line without a header, with a plus sign, an underscore, a leading zero and a digit of another
    script. -/
theorem loose_line_canonical :
    ∃ canonical, serialize plainRepr [.place "a b".toList [12, -3, 0] (some 2) (some true),
        .revisit 4] = .ok canonical ∧
      parse plainRepr canonical =
        .ok [.place "a b".toList [12, -3, 0] (some 2) (some true), .revisit 4] :=
  parse_canonical plainRepr "  F a~b +1_2 -03 0 ٢  V ٤ ".toList _ (by decide +kernel)

/-! ## A generated line -/

section

variable (repr : Text → String)

/-- The field is a conditioning header. -/
def isHeader (field : Text) : Bool := "#len=".toList.isPrefixOf field

/-- The field starts a token. -/
def startsToken (field : Text) : Bool := [['P'], ['F'], ['V'], ['J'], ['G']].contains field

/-- The fields behind an optional header. -/
def afterHeader : List Text → List Text
  | [] => []
  | field :: fields => if isHeader field then fields else field :: fields

/-- The loop over `n, …, 1`: the longest of these prefixes that parses, with its length. -/
def longestParse (body : List Text) : Nat → Option (List Token × Nat)
  | 0 => none
  | n + 1 =>
    match parse repr ([' '].intercalate (body.take (n + 1))) with
    | .ok tokens => some (tokens, n + 1)
    | .error _ => longestParse body n

/-- The status of a sample. -/
inductive SampleStatus where
  | complete
  | truncated
  | invalid
deriving DecidableEq

/-- The fields behind an optional header and a leading fragment. -/
def sampleBody (text : Text) : List Text :=
  (afterHeader (words isSpace (strip isSpace text))).dropWhile fun field => !startsToken field

/-- `parse_prefix(text)`: the tokens, the status and the length of the leading fragment. -/
def parsePrefix (text : Text) : Option (List Token) × SampleStatus × Nat :=
  let lead := ((afterHeader (words isSpace (strip isSpace text))).takeWhile
    fun field => !startsToken field).length
  match longestParse repr (sampleBody text) (sampleBody text).length with
  | none => (none, .invalid, lead)
  | some (best, bestN) =>
    (some best, if bestN = (sampleBody text).length then .complete else .truncated, lead)

/-- `_parse_lenient(text)`. -/
def parseLenient (text : Text) : Option (List Token) :=
  match parse repr text with
  | .ok tokens => some tokens
  | .error _ =>
    let body := afterHeader (words isSpace (strip isSpace text))
    (longestParse repr body body.length).map Prod.fst

/-- The tokens of a list of fields without a header. -/
def fieldTokens (fields : List Text) : Option (List Token) := (parseFields repr 0 fields).toOption

end

/-- The index of a field only shows in the texts of errors. -/
theorem toOption_placement (i j : Nat) (op name dx dy dz rot : Text) :
    (placement i op name dx dy dz rot).toOption = (placement j op name dx dy dz rot).toOption := by
  unfold placement
  split
  · rfl
  · rfl

theorem toOption_bind {α β ε : Type} (x : Except ε α) (f : α → Except ε β) :
    (x >>= f).toOption = x.toOption.bind fun a => (f a).toOption := by
  cases x <;> rfl

theorem toOption_parseFields (i j : Nat) (fields : List Text) :
    (parseFields repr i fields).toOption = (parseFields repr j fields).toOption := by
  induction i, fields using parseFields.induct generalizing j with
  | case1 i => rfl
  | case2 i op hop name dx dy dz rot fields ih =>
    rw [parseFields_place i hop, parseFields_place j hop, toOption_bind, toOption_bind,
      toOption_placement i j]
    refine congrArg (Option.bind _) (funext fun token => ?_)
    rw [toOption_bind, toOption_bind, ih (j + 6)]
  | case3 i op fields hop hshort =>
    rw [parseFields.eq_def, parseFields.eq_def repr j]
    simp only [if_pos hop]
    rfl
  | case4 i arg fields hop ih =>
    rw [parseFields_revisit, parseFields_revisit, toOption_bind, toOption_bind]
    refine congrArg (Option.bind _) (funext fun token => ?_)
    rw [toOption_bind, toOption_bind, ih (j + 2)]
  | case5 i hop => rfl
  | case6 i fields hop hrevisit ih =>
    rw [parseFields_jump, parseFields_jump, toOption_bind, toOption_bind, ih (j + 1)]
  | case7 i fields hop hrevisit hjump ih =>
    rw [parseFields_gap, parseFields_gap, toOption_bind, toOption_bind, ih (j + 1)]
  | case8 i op fields hop hrevisit hjump hgap =>
    rw [parseFields.eq_def, parseFields.eq_def repr j]
    simp only [if_neg hop, if_neg hrevisit, if_neg hjump, if_neg hgap]
    rfl

theorem isHeader_iff {field : Text} : isHeader field = true ↔ "#len=".toList <+: field :=
  List.isPrefixOf_iff_prefix

theorem startsToken_iff {field : Text} : startsToken field = true ↔
    field = ['P'] ∨ field = ['F'] ∨ field = ['V'] ∨ field = ['J'] ∨ field = ['G'] := by
  simp [startsToken]

theorem startsToken_of_isHeader {field : Text} (h : isHeader field = true) :
    startsToken field = false := by
  refine Bool.eq_false_iff.mpr fun hstart => ?_
  obtain rfl | rfl | rfl | rfl | rfl := startsToken_iff.mp hstart <;> exact absurd h (by decide)

theorem fieldTokens_eq_none {field : Text} (h : startsToken field = false) (fields : List Text) :
    fieldTokens repr (field :: fields) = none := by
  have hno : ¬startsToken field = true := Bool.eq_false_iff.mp h
  rw [startsToken_iff] at hno
  unfold fieldTokens
  rw [parseFields.eq_def]
  simp only [not_or] at hno
  simp only [hno, or_self, if_false]
  rfl

/-- Fields that were read have given a token. -/
theorem ne_nil_of_parseFields {i : Nat} {field : Text} {fields : List Text} {tokens : List Token}
    (h : parseFields repr i (field :: fields) = .ok tokens) : tokens ≠ [] := by
  have hcons : ∀ {rest : Except String (List Token)} {token : Token},
      (rest >>= fun tokens => .ok (token :: tokens)) = .ok tokens → tokens ≠ [] := by
    intro rest token hrest
    obtain ⟨tail, -, htail⟩ := bind_eq_ok.mp hrest
    rw [← Except.ok.inj htail]
    exact List.cons_ne_nil _ _
  rw [parseFields.eq_def] at h
  dsimp only at h
  split at h
  · split at h
    · obtain ⟨token, -, h⟩ := bind_eq_ok.mp h
      exact hcons h
    · exact absurd h nofun
  · split at h
    · split at h
      · obtain ⟨token, -, h⟩ := bind_eq_ok.mp h
        exact hcons h
      · exact absurd h nofun
    · split at h
      · exact hcons h
      · split at h
        · exact hcons h
        · exact absurd h nofun

/-- What `parse` returns, from the fields of the text. -/
theorem toOption_parse (text : Text) : (parse repr text).toOption =
    match words isSpace (strip isSpace text) with
    | [] => none
    | field :: fields =>
      if isHeader field then fieldTokens repr fields else fieldTokens repr (field :: fields) := by
  unfold parse
  cases words isSpace (strip isSpace text) with
  | nil => rfl
  | cons field fields =>
    dsimp only
    by_cases hheader : "#len=".toList <+: field
    · rw [if_pos hheader, if_pos (isHeader_iff.mpr hheader)]
      exact toOption_parseFields 1 0 fields
    · rw [if_neg hheader, if_neg fun h => hheader (isHeader_iff.mp h)]
      rfl

theorem words_joined {fields : List Text} (h : ∀ f ∈ fields, IsWord isSpace f) :
    words isSpace (strip isSpace ([' '].intercalate fields)) = fields := by
  rw [words_strip, words_intercalate_isWord isSpace_blank h]

/-- What `parse` returns of the first `m` fields. -/
def prefixTokens (repr : Text → String) (body : List Text) (m : Nat) : Option (List Token) :=
  (parse repr ([' '].intercalate (body.take m))).toOption

theorem prefixTokens_cons (repr : Text → String) {field : Text} {body : List Text}
    (hfield : IsWord isSpace field) (hbody : ∀ f ∈ body, IsWord isSpace f) (m : Nat) :
    prefixTokens repr (field :: body) (m + 1) =
      if isHeader field then fieldTokens repr (body.take m)
      else fieldTokens repr (field :: body.take m) := by
  have hwords : ∀ f ∈ field :: body.take m, IsWord isSpace f :=
    List.forall_mem_cons.mpr ⟨hfield, fun f hf => hbody f (List.mem_of_mem_take hf)⟩
  unfold prefixTokens
  rw [List.take_succ_cons, toOption_parse, words_joined hwords]

theorem longestParse_succ (repr : Text → String) (body : List Text) (n : Nat) :
    longestParse repr body (n + 1) =
      match prefixTokens repr body (n + 1) with
      | some tokens => some (tokens, n + 1)
      | none => longestParse repr body n := by
  unfold prefixTokens
  rw [longestParse]
  cases parse repr ([' '].intercalate (body.take (n + 1))) <;> rfl

/-- The tokens of the longest prefix of the fields that parses, none where no prefix does. -/
def IsLongestPrefix (repr : Text → String) (body : List Text) : Option (List Token) → Prop
  | none => ∀ m, 0 < m → m ≤ body.length → prefixTokens repr body m = none
  | some tokens => ∃ n, 0 < n ∧ n ≤ body.length ∧ prefixTokens repr body n = some tokens ∧
      ∀ m, n < m → m ≤ body.length → prefixTokens repr body m = none

theorem longestParse_spec (repr : Text → String) (body : List Text) (n : Nat) :
    match longestParse repr body n with
    | none => ∀ m, 0 < m → m ≤ n → prefixTokens repr body m = none
    | some (tokens, k) => 0 < k ∧ k ≤ n ∧ prefixTokens repr body k = some tokens ∧
        ∀ m, k < m → m ≤ n → prefixTokens repr body m = none := by
  induction n with
  | zero =>
    intro m hpos hle
    omega
  | succ n ih =>
    rw [longestParse_succ]
    cases htokens : prefixTokens repr body (n + 1) with
    | some tokens =>
      refine ⟨Nat.succ_pos n, le_rfl, htokens, fun m hlt hle => ?_⟩
      omega
    | none =>
      dsimp only
      have hlast : ∀ m, n < m → m ≤ n + 1 → prefixTokens repr body m = none := by
        intro m hlt hle
        obtain rfl : m = n + 1 := by omega
        exact htokens
      cases hloop : longestParse repr body n with
      | none =>
        rw [hloop] at ih
        intro m hpos hle
        by_cases hm : m ≤ n
        · exact ih m hpos hm
        · exact hlast m (by omega) hle
      | some best =>
        rw [hloop] at ih
        obtain ⟨hpos, hle, hbest, hlonger⟩ := ih
        refine ⟨hpos, by omega, hbest, fun m hlt hle' => ?_⟩
        by_cases hm : m ≤ n
        · exact hlonger m hlt hm
        · exact hlast m (by omega) hle'

/-- Some prefix of the fields parses. -/
def Parses (repr : Text → String) (body : List Text) : Prop :=
  ∃ m, 0 < m ∧ m ≤ body.length ∧ (prefixTokens repr body m).isSome

/-- The tokens that the loop over all prefixes ends with. -/
def longestTokens (repr : Text → String) (body : List Text) : Option (List Token) :=
  (longestParse repr body body.length).map Prod.fst

theorem isLongestPrefix_longestTokens (repr : Text → String) (body : List Text) :
    IsLongestPrefix repr body (longestTokens repr body) := by
  have hspec := longestParse_spec repr body body.length
  unfold longestTokens
  cases hloop : longestParse repr body body.length with
  | none =>
    rw [hloop] at hspec
    exact hspec
  | some best =>
    rw [hloop] at hspec
    exact ⟨best.2, hspec⟩

theorem longestTokens_eq_none_iff (repr : Text → String) (body : List Text) :
    longestTokens repr body = none ↔ ¬Parses repr body := by
  have hspec := isLongestPrefix_longestTokens repr body
  cases hloop : longestTokens repr body with
  | none =>
    rw [hloop] at hspec
    refine iff_of_true rfl fun hparses => ?_
    obtain ⟨m, hpos, hle, hsome⟩ := hparses
    rw [hspec m hpos hle] at hsome
    exact Bool.false_ne_true hsome
  | some tokens =>
    rw [hloop] at hspec
    obtain ⟨n, hpos, hle, htokens, -⟩ := hspec
    refine iff_of_false nofun fun hno => hno ⟨n, hpos, hle, ?_⟩
    rw [htokens]
    rfl

/-- The loop tries all the fields first. -/
theorem or_longestTokens {body : List Text} (hne : body ≠ []) :
    (prefixTokens repr body body.length).or (longestTokens repr body) =
      longestTokens repr body := by
  obtain ⟨n, hn⟩ : ∃ n, body.length = n + 1 :=
    ⟨body.length - 1, by have := List.length_pos_iff.mpr hne; omega⟩
  unfold longestTokens
  rw [hn, longestParse_succ]
  cases prefixTokens repr body (n + 1) <;> rfl

section Body

variable {field : Text} {body : List Text} (hfield : IsWord isSpace field)
  (hbody : ∀ f ∈ body, IsWord isSpace f)
include hfield hbody

theorem fieldTokens_or_longestTokens (hheader : isHeader field = false) :
    (fieldTokens repr (field :: body)).or (longestTokens repr (field :: body)) =
      longestTokens repr (field :: body) := by
  have hall := prefixTokens_cons repr hfield hbody body.length
  rw [List.take_length, hheader, if_neg Bool.false_ne_true] at hall
  rw [← hall]
  exact or_longestTokens (List.cons_ne_nil _ _)

/-- Nothing parses from a field that starts no token. -/
theorem longestTokens_eq_none (hheader : isHeader field = false)
    (hstart : startsToken field = false) : longestTokens repr (field :: body) = none := by
  rw [longestTokens_eq_none_iff]
  intro hparses
  obtain ⟨m, hpos, -, hsome⟩ := hparses
  obtain ⟨n, rfl⟩ : ∃ n, m = n + 1 := ⟨m - 1, by omega⟩
  rw [prefixTokens_cons repr hfield hbody, hheader, if_neg Bool.false_ne_true,
    fieldTokens_eq_none hstart] at hsome
  exact Bool.false_ne_true hsome

/-- Behind a header the empty list of tokens parses, so that some prefix always does. -/
theorem longestParse_header (hheader : isHeader field = true) (n : Nat) :
    (longestParse repr (field :: body) (n + 1)).map Prod.fst =
      some (if body.head?.any startsToken then ((longestParse repr body n).map Prod.fst).getD []
        else []) := by
  induction n with
  | zero =>
    rw [longestParse_succ, prefixTokens_cons repr hfield hbody, if_pos hheader, List.take_zero]
    cases body.head?.any startsToken <;> rfl
  | succ n ih =>
    rw [longestParse_succ, prefixTokens_cons repr hfield hbody, if_pos hheader]
    cases body with
    | nil => rfl
    | cons first rest =>
      obtain ⟨hfirst, hrest⟩ := List.forall_mem_cons.mp hbody
      rw [List.take_succ_cons]
      cases hstart : startsToken first with
      | false =>
        rw [fieldTokens_eq_none hstart]
        rw [List.head?_cons, Option.any_some, hstart] at ih ⊢
        exact ih
      | true =>
        have hnot : isHeader first = false := by
          refine Bool.eq_false_iff.mpr fun h => ?_
          rw [startsToken_of_isHeader h] at hstart
          exact Bool.false_ne_true hstart
        have hsame := prefixTokens_cons repr hfirst hrest n
        rw [hnot, if_neg Bool.false_ne_true] at hsame
        rw [List.head?_cons, Option.any_some, hstart] at ih ⊢
        rw [longestParse_succ repr (first :: rest), hsame]
        cases fieldTokens repr (first :: rest.take n) with
        | none => exact ih
        | some tokens => rfl

theorem longestTokens_header (hheader : isHeader field = true) :
    longestTokens repr (field :: body) =
      some (if body.head?.any startsToken then (longestTokens repr body).getD [] else []) :=
  longestParse_header hfield hbody hheader body.length

end Body

/-! ### Both functions from the fields -/

theorem parsePrefix_fst (repr : Text → String) (text : Text) :
    (parsePrefix repr text).1 = longestTokens repr (sampleBody text) := by
  unfold parsePrefix longestTokens
  cases longestParse repr (sampleBody text) (sampleBody text).length <;> rfl

theorem parseLenient_eq (repr : Text → String) (text : Text) :
    parseLenient repr text = (parse repr text).toOption.or
      (longestTokens repr (afterHeader (words isSpace (strip isSpace text)))) := by
  unfold parseLenient
  cases parse repr text <;> rfl

theorem afterHeader_cons (field : Text) (fields : List Text) :
    afterHeader (field :: fields) = if isHeader field then fields else field :: fields := rfl

theorem toOption_parse_afterHeader {text : Text} {first : Text} {rest : List Text}
    (h : afterHeader (words isSpace (strip isSpace text)) = first :: rest) :
    (parse repr text).toOption = fieldTokens repr (first :: rest) := by
  rw [toOption_parse, ← h]
  cases hfields : words isSpace (strip isSpace text) with
  | nil =>
    rw [hfields] at h
    cases h
  | cons field fields =>
    dsimp only
    rw [afterHeader_cons]
    cases isHeader field <;> rfl

theorem isWord_of_mem_afterHeader {text f : Text}
    (h : f ∈ afterHeader (words isSpace (strip isSpace text))) : IsWord isSpace f := by
  suffices hmem : f ∈ words isSpace (strip isSpace text) from isWord_of_mem hmem
  cases hfields : words isSpace (strip isSpace text) with
  | nil =>
    rw [hfields] at h
    exact h
  | cons field fields =>
    rw [hfields, afterHeader_cons] at h
    cases hheader : isHeader field with
    | true =>
      rw [hheader, if_pos rfl] at h
      exact List.mem_cons_of_mem _ h
    | false =>
      rw [hheader, if_neg Bool.false_ne_true] at h
      exact h

/-- What is counted as parsed is never an empty list of tokens. -/
theorem ne_nil_of_longestTokens_sampleBody {text : Text} {tokens : List Token}
    (h : longestTokens repr (sampleBody text) = some tokens) : tokens ≠ [] := by
  have hlongest := isLongestPrefix_longestTokens repr (sampleBody text)
  rw [h] at hlongest
  obtain ⟨n, hpos, hle, htokens, -⟩ := hlongest
  cases hbody : sampleBody text with
  | nil =>
    rw [hbody, List.length_nil] at hle
    omega
  | cons first rest =>
    have hwords : ∀ f ∈ first :: rest, IsWord isSpace f := by
      intro f hf
      rw [← hbody] at hf
      exact isWord_of_mem_afterHeader ((List.dropWhile_sublist _).mem hf)
    obtain ⟨hfirst, hrest⟩ := List.forall_mem_cons.mp hwords
    have hstart : startsToken first = true := by
      have hhead := List.head?_dropWhile_not (fun field => !startsToken field)
        (afterHeader (words isSpace (strip isSpace text)))
      rw [show (afterHeader (words isSpace (strip isSpace text))).dropWhile _ = first :: rest
        from hbody] at hhead
      simpa using hhead
    have hnot : isHeader first = false := by
      refine Bool.eq_false_iff.mpr fun hheader => ?_
      rw [startsToken_of_isHeader hheader] at hstart
      exact Bool.false_ne_true hstart
    obtain ⟨m, rfl⟩ : ∃ m, n = m + 1 := ⟨n - 1, by omega⟩
    rw [hbody, prefixTokens_cons repr hfirst hrest, hnot, if_neg Bool.false_ne_true] at htokens
    unfold fieldTokens at htokens
    cases hparse : parseFields repr 0 (first :: rest.take m) with
    | error e =>
      rw [hparse] at htokens
      cases htokens
    | ok parsed =>
      rw [hparse] at htokens
      rw [← Option.some.inj htokens]
      exact ne_nil_of_parseFields hparse

/-- The lines for which the realiser agrees with the sampler. -/
def LenientAgrees (repr : Text → String) (text : Text) : Prop :=
  match afterHeader (words isSpace (strip isSpace text)) with
  | [] => words isSpace (strip isSpace text) = []
  | first :: rest =>
    startsToken first ∨ (isHeader first ∧ rest.head?.any startsToken ∧ Parses repr rest) ∨
      (¬startsToken first ∧ ¬isHeader first ∧ ¬Parses repr (sampleBody text))

/-- The tokens that are measured are those that are built, and they are read from the longest prefix
    of the fields, behind an optional header and a leading fragment, that parses. -/
structure SameTokens (repr : Text → String) (text : Text) : Prop where
  same : (parsePrefix repr text).1 = parseLenient repr text
  longest : IsLongestPrefix repr (sampleBody text) (parsePrefix repr text).1

/-- The realiser knows no leading fragment, and takes a header behind a header, and a header
    alone, for an empty list of tokens. -/
theorem sameTokens_iff (repr : Text → String) (text : Text) :
    SameTokens repr text ↔ LenientAgrees repr text := by
  have hsame : SameTokens repr text ↔
      longestTokens repr (sampleBody text) = parseLenient repr text := by
    rw [← parsePrefix_fst]
    refine ⟨fun h => h.same, fun h => ⟨h, ?_⟩⟩
    rw [parsePrefix_fst]
    exact isLongestPrefix_longestTokens repr (sampleBody text)
  rw [hsame]
  unfold LenientAgrees
  cases hbody : afterHeader (words isSpace (strip isSpace text)) with
  | nil =>
    have hnone : longestTokens repr (sampleBody text) = none := by
      unfold sampleBody
      rw [hbody]
      rfl
    rw [hnone, parseLenient_eq, toOption_parse, hbody]
    cases hfields : words isSpace (strip isSpace text) with
    | nil => exact iff_of_true rfl rfl
    | cons field fields =>
      -- the text is a header alone, which `parse` reads as no token
      rw [hfields, afterHeader_cons] at hbody
      cases hheader : isHeader field with
      | true =>
        rw [hheader, if_pos rfl] at hbody
        rw [hbody]
        dsimp only
        rw [hheader, if_pos rfl]
        exact iff_of_false nofun nofun
      | false =>
        rw [hheader, if_neg Bool.false_ne_true] at hbody
        cases hbody
  | cons first rest =>
    have hwords : ∀ f ∈ first :: rest, IsWord isSpace f :=
      fun f hf => isWord_of_mem_afterHeader (hbody ▸ hf)
    obtain ⟨hfirst, hrest⟩ := List.forall_mem_cons.mp hwords
    rw [parseLenient_eq, toOption_parse_afterHeader hbody, hbody]
    dsimp only
    have hsample : sampleBody text =
        if startsToken first then first :: rest
        else rest.dropWhile fun field => !startsToken field := by
      unfold sampleBody
      rw [hbody, List.dropWhile_cons]
      cases startsToken first <;> rfl
    cases hheader : isHeader first with
    | true =>
      have hstart := startsToken_of_isHeader hheader
      rw [fieldTokens_eq_none hstart, Option.none_or, longestTokens_header hfirst hrest hheader,
        hstart]
      cases hopen : rest.head?.any startsToken with
      | true =>
        have hrestBody : sampleBody text = rest := by
          rw [hsample, hstart, if_neg Bool.false_ne_true]
          cases rest with
          | nil => rfl
          | cons second more =>
            rw [List.head?_cons, Option.any_some] at hopen
            rw [List.dropWhile_cons, hopen]
            rfl
        have hparses := longestTokens_eq_none_iff repr rest
        rw [hrestBody, if_pos rfl]
        cases htokens : longestTokens repr rest with
        | none =>
          have hno := hparses.mp htokens
          simp [hno]
        | some tokens =>
          have hyes : Parses repr rest := by
            by_contra hno
            rw [hparses.mpr hno] at htokens
            cases htokens
          simp [hyes]
      | false =>
        rw [if_neg Bool.false_ne_true]
        refine iff_of_false (fun h => ne_nil_of_longestTokens_sampleBody h rfl) ?_
        simp
    | false =>
      rw [fieldTokens_or_longestTokens hfirst hrest hheader]
      cases hstart : startsToken first with
      | true =>
        rw [hstart, if_pos rfl] at hsample
        rw [hsample]
        exact iff_of_true rfl (Or.inl rfl)
      | false =>
        rw [longestTokens_eq_none hfirst hrest hheader hstart, longestTokens_eq_none_iff]
        simp

/-- A sample that begins inside a token is counted with its tokens, and not built. -/
theorem desynced_not_built : ¬SameTokens plainRepr "x P RoadTechStraight 0 0 1 2".toList := by
  intro h
  have hcounted : (parsePrefix plainRepr "x P RoadTechStraight 0 0 1 2".toList).1 =
      some [.place "RoadTechStraight".toList [0, 0, 1] (some 2) (some false)] := by decide +kernel
  have hbuilt : parseLenient plainRepr "x P RoadTechStraight 0 0 1 2".toList = none := by
    decide +kernel
  have hsame := h.same
  rw [hcounted, hbuilt] at hsame
  cases hsame

end TraxMania.Learning
