import Mathlib.Data.List.DropRight
import Mathlib.Data.Option.Basic
import Mathlib.Algebra.Ring.Nat

/-
  Python's texts, character by character: the words of a text (its longest runs without a
  separator, in order), stripping and cutting, white space, decimal digits, and the two conversions
  between integers and texts. A text put together with a separator falls apart into the words of its
  parts, and reading the text of an integer gives the integer.

  Nothing here is about a program in particular.
-/

namespace Lib.Words

variable {α : Type*} {p : α → Bool}

/-- The words of a text. `p` holds of the separators. -/
def words (p : α → Bool) (text : List α) : List (List α) :=
  (text.splitOnP p).filter fun word => !word.isEmpty

/-- A word: not empty, and without a separator. -/
structure IsWord (p : α → Bool) (word : List α) : Prop where
  ne_nil : word ≠ []
  free : ∀ c ∈ word, p c = false

theorem isWord_of_all {p : α → Bool} {word : List α} (hne : word ≠ [])
    (h : word.all (fun c => !p c) = true) : IsWord p word where
  ne_nil := hne
  free c hc := by
    have hfree := List.all_eq_true.mp h c hc
    simpa using hfree

/-- The text without the separators at its two ends. -/
def strip (p : α → Bool) (text : List α) : List α := (text.dropWhile p).rdropWhile p

/-! ## The words of a text that is put together -/

@[simp] theorem words_nil : words p [] = [] := by
  simp [words]

theorem words_append_cons (a b : List α) {sep : α} (hsep : p sep) :
    words p (a ++ sep :: b) = words p a ++ words p b := by
  unfold words
  rw [List.splitOnP_append_cons a b hsep, List.filter_append]

theorem words_cons (b : List α) {sep : α} (hsep : p sep) : words p (sep :: b) = words p b := by
  have h := words_append_cons [] b hsep
  rwa [words_nil, List.nil_append, List.nil_append] at h

theorem words_of_isWord {word : List α} (h : IsWord p word) : words p word = [word] := by
  unfold words
  rw [List.splitOnP_eq_singleton h.free]
  simp [h.ne_nil]

/-- A text put together with a separator has the words of its parts. -/
theorem words_intercalate (parts : List (List α)) {sep : α} (hsep : p sep) :
    words p ([sep].intercalate parts) = parts.flatMap (words p) := by
  induction parts with
  | nil => simp
  | cons part parts ih =>
      by_cases hnil : parts = []
      · subst hnil
        simp
      · rw [List.intercalate_cons_of_ne_nil hnil, List.append_assoc, List.singleton_append,
          words_append_cons _ _ hsep, ih, List.flatMap_cons]

theorem words_intercalate_isWord {parts : List (List α)} {sep : α} (hsep : p sep)
    (h : ∀ part ∈ parts, IsWord p part) : words p ([sep].intercalate parts) = parts := by
  rw [words_intercalate parts hsep, List.flatMap_congr fun part hpart => words_of_isWord (h part hpart)]
  exact List.flatMap_singleton' parts

/-! ## What the words of a text are -/

/-- `run` is the part of the text that has been read since the last separator. -/
theorem isWord_of_mem_append (text : List α) :
    ∀ run : List α, (∀ c ∈ run, p c = false) → ∀ word ∈ words p (run ++ text), IsWord p word := by
  induction text with
  | nil =>
      intro run hrun word hword
      rw [List.append_nil] at hword
      by_cases hnil : run = []
      · simp [hnil] at hword
      · have hone : word = run := by
          simpa [words_of_isWord ⟨hnil, hrun⟩] using hword
        rw [hone]
        exact ⟨hnil, hrun⟩
  | cons c text ih =>
      intro run hrun word hword
      by_cases hc : p c
      · rw [words_append_cons _ _ hc] at hword
        obtain hleft | hright := List.mem_append.mp hword
        · by_cases hnil : run = []
          · simp [hnil] at hleft
          · have hone : word = run := by
              simpa [words_of_isWord ⟨hnil, hrun⟩] using hleft
            rw [hone]
            exact ⟨hnil, hrun⟩
        · exact ih [] (by simp) word hright
      · have hgrow : run ++ c :: text = (run ++ [c]) ++ text := by simp
        rw [hgrow] at hword
        apply ih (run ++ [c]) _ word hword
        intro d hd
        obtain h | h := List.mem_append.mp hd
        · exact hrun d h
        · rw [List.mem_singleton.mp h]
          simpa using hc

theorem isWord_of_mem {text word : List α} (h : word ∈ words p text) : IsWord p word :=
  isWord_of_mem_append text [] (by simp) word h

/-! ## Separators at the ends -/

theorem words_dropWhile (text : List α) : words p (text.dropWhile p) = words p text := by
  induction text with
  | nil => rfl
  | cons c text ih =>
      rw [List.dropWhile_cons]
      by_cases hc : p c
      · rw [if_pos hc, ih, words_cons _ hc]
      · rw [if_neg hc]

theorem words_rdropWhile (text : List α) : words p (text.rdropWhile p) = words p text := by
  induction text using List.reverseRecOn with
  | nil => rw [List.rdropWhile_nil]
  | append_singleton text c ih =>
      rw [List.rdropWhile_concat]
      by_cases hc : p c
      · rw [if_pos hc, ih, words_append_cons _ _ hc, words_nil, List.append_nil]
      · rw [if_neg hc]

theorem words_strip (text : List α) : words p (strip p text) = words p text := by
  unfold strip
  rw [words_rdropWhile, words_dropWhile]

/-! ## Stripping -/

/-- Only separators are stripped. -/
theorem exists_strip (p : α → Bool) (text : List α) :
    ∃ lead trail, text = lead ++ strip p text ++ trail ∧ (∀ c ∈ lead, p c) ∧ ∀ c ∈ trail, p c := by
  have hlead : ∀ l : List α, ∀ c ∈ l.takeWhile p, p c := fun l c hc =>
    (List.mem_takeWhile_imp hc)
  refine ⟨text.takeWhile p, ((text.dropWhile p).reverse.takeWhile p).reverse, ?_, hlead text, ?_⟩
  · have htrail : text.dropWhile p =
        strip p text ++ ((text.dropWhile p).reverse.takeWhile p).reverse := by
      unfold strip List.rdropWhile
      rw [← List.reverse_append, List.takeWhile_append_dropWhile, List.reverse_reverse]
    rw [List.append_assoc, ← htrail, List.takeWhile_append_dropWhile]
  · intro c hc
    exact hlead _ c (List.mem_reverse.mp hc)

theorem strip_isInfix (text : List α) : strip p text <:+: text := by
  obtain ⟨lead, trail, htext, -⟩ := exists_strip p text
  exact ⟨lead, trail, htext.symm⟩

theorem mem_strip_of_not {text : List α} {c : α} (hc : p c = false) :
    c ∈ strip p text ↔ c ∈ text := by
  constructor
  · exact fun h => (strip_isInfix text).subset h
  · intro h
    obtain ⟨lead, trail, htext, hlead, htrail⟩ := exists_strip p text
    rw [htext, List.mem_append, List.mem_append] at h
    obtain (h | h) | h := h
    · rw [hlead c h] at hc
      cases hc
    · exact h
    · rw [htrail c h] at hc
      cases hc

theorem countP_strip {q : α → Bool} (hq : ∀ c, p c → q c = false) (text : List α) :
    (strip p text).countP q = text.countP q := by
  have hblank : ∀ l : List α, (∀ c ∈ l, p c) → l.countP q = 0 := fun l hl =>
    List.countP_eq_zero.mpr fun c hc => by simp [hq c (hl c hc)]
  obtain ⟨lead, trail, htext, hlead, htrail⟩ := exists_strip p text
  conv_rhs => rw [htext]
  rw [List.countP_append, List.countP_append, hblank lead hlead, hblank trail htrail]
  omega

theorem strip_eq_nil_iff {text : List α} : strip p text = [] ↔ ∀ c ∈ text, p c := by
  constructor
  · intro h c hc
    by_contra hnot
    have hmem := (mem_strip_of_not (by simpa using hnot)).mpr hc
    rw [h] at hmem
    cases hmem
  · intro h
    unfold strip
    rw [List.dropWhile_eq_nil_iff.mpr h, List.rdropWhile_nil]

theorem dropWhile_append_cons_of_neg {c : α} (hc : p c = false) (lead rest : List α) :
    (lead ++ c :: rest).dropWhile p = lead.dropWhile p ++ c :: rest := by
  rw [List.dropWhile_append]
  split
  · next hnil =>
    rw [List.isEmpty_iff.mp hnil, List.nil_append, List.dropWhile_cons_of_neg (by simp [hc])]
  · rfl

/-- What begins and ends with something else is not stripped. -/
theorem infix_strip {c d : α} (hc : p c = false) (hd : p d = false) {mid text : List α}
    (h : (c :: mid ++ [d]) <:+: text) : (c :: mid ++ [d]) <:+: strip p text := by
  obtain ⟨lead, trail, rfl⟩ := h
  have hlead : (lead ++ (c :: mid ++ [d]) ++ trail).dropWhile p =
      (lead.dropWhile p ++ c :: mid) ++ d :: trail := by
    rw [List.append_assoc, List.cons_append, List.cons_append, dropWhile_append_cons_of_neg hc]
    simp
  unfold strip List.rdropWhile
  rw [hlead, List.reverse_append, List.reverse_cons, List.append_assoc, List.singleton_append,
    dropWhile_append_cons_of_neg hd]
  exact ⟨lead.dropWhile p, (trail.reverse.dropWhile p).reverse, by simp⟩

theorem dropWhile_flatMap {β : Type*} {blank : β → Bool} {f : β → List α}
    (hblank : ∀ b, blank b → ∀ c ∈ f b, p c)
    (hsolid : ∀ b, blank b = false → ∃ c, f b = [c] ∧ p c = false) (pieces : List β) :
    (pieces.flatMap f).dropWhile p = (pieces.dropWhile blank).flatMap f := by
  induction pieces with
  | nil => rfl
  | cons b pieces ih =>
    rw [List.flatMap_cons]
    by_cases hb : blank b
    · rw [List.dropWhile_cons_of_pos hb, ← ih, List.dropWhile_append_of_pos (hblank b hb)]
    · obtain ⟨c, hc, hpc⟩ := hsolid b (by simpa using hb)
      rw [List.dropWhile_cons_of_neg hb, List.flatMap_cons, hc, List.singleton_append,
        List.dropWhile_cons_of_neg (by simp [hpc])]

theorem rdropWhile_flatMap {β : Type*} {blank : β → Bool} {f : β → List α}
    (hblank : ∀ b, blank b → ∀ c ∈ f b, p c)
    (hsolid : ∀ b, blank b = false → ∃ c, f b = [c] ∧ p c = false) (pieces : List β) :
    (pieces.flatMap f).rdropWhile p = (pieces.rdropWhile blank).flatMap f := by
  induction pieces using List.reverseRecOn with
  | nil => rfl
  | append_singleton pieces b ih =>
    rw [List.flatMap_append, List.flatMap_singleton, List.rdropWhile_concat]
    by_cases hb : blank b
    · rw [if_pos hb, ← ih]
      unfold List.rdropWhile
      rw [List.reverse_append, List.dropWhile_append_of_pos]
      intro c hc
      exact hblank b hb c (List.mem_reverse.mp hc)
    · obtain ⟨c, hc, hpc⟩ := hsolid b (by simpa using hb)
      rw [if_neg hb, hc, List.rdropWhile_concat_neg _ _ _ (by simp [hpc]), List.flatMap_append,
        List.flatMap_singleton, hc]

/-- A text that is put together of blank texts and of single characters is stripped piece by
    piece. -/
theorem strip_flatMap {β : Type*} {blank : β → Bool} {f : β → List α}
    (hblank : ∀ b, blank b → ∀ c ∈ f b, p c)
    (hsolid : ∀ b, blank b = false → ∃ c, f b = [c] ∧ p c = false) (pieces : List β) :
    strip p (pieces.flatMap f) = (strip blank pieces).flatMap f := by
  unfold strip
  rw [dropWhile_flatMap hblank hsolid, rdropWhile_flatMap hblank hsolid]

theorem strip_append_of_all (text : List α) {tail : List α} (htail : ∀ c ∈ tail, p c) :
    strip p (text ++ tail) = strip p text := by
  have hdrop : ∀ l : List α, (l ++ tail).rdropWhile p = l.rdropWhile p := by
    intro l
    unfold List.rdropWhile
    rw [List.reverse_append, List.dropWhile_append_of_pos]
    intro c hc
    exact htail c (List.mem_reverse.mp hc)
  unfold strip
  rw [List.dropWhile_append]
  by_cases hnil : text.dropWhile p = []
  · rw [hnil, List.isEmpty_nil, if_pos rfl, List.dropWhile_eq_nil_iff.mpr htail]
  · rw [if_neg (by simpa using hnil), hdrop]

/-! ## Cutting -/

/-- The pieces of two texts, the last of the one put together with the first of the other. -/
theorem splitOnP_append (text tail : List α) :
    ∃ init last first rest, text.splitOnP p = init ++ [last] ∧ tail.splitOnP p = first :: rest ∧
      (text ++ tail).splitOnP p = init ++ (last ++ first) :: rest := by
  obtain ⟨first, rest, htail⟩ := List.exists_cons_of_ne_nil (List.splitOnP_ne_nil p tail)
  induction text with
  | nil => exact ⟨[], [], first, rest, by simp, htail, by simpa using htail⟩
  | cons c text ih =>
    obtain ⟨init, last, first', rest', hsplit, htail', hlast⟩ := ih
    rw [htail] at htail'
    obtain ⟨rfl, rfl⟩ := List.cons.inj htail'
    rw [List.cons_append, List.splitOnP_cons_eq_if_modifyHead, List.splitOnP_cons_eq_if_modifyHead,
      hsplit, hlast]
    by_cases hc : p c
    · rw [if_pos hc, if_pos hc]
      exact ⟨[] :: init, last, first, rest, rfl, htail, rfl⟩
    · rw [if_neg hc, if_neg hc]
      cases init with
      | nil => exact ⟨[], c :: last, first, rest, rfl, htail, rfl⟩
      | cons piece init => exact ⟨(c :: piece) :: init, last, first, rest, rfl, htail, rfl⟩

/-- What is put behind a text without a separator in it goes to its last piece. -/
theorem splitOnP_append_free (text : List α) {tail : List α} (hfree : ∀ c ∈ tail, p c = false) :
    ∃ init last, text.splitOnP p = init ++ [last] ∧
      (text ++ tail).splitOnP p = init ++ [last ++ tail] := by
  obtain ⟨init, last, first, rest, hsplit, htail, happend⟩ := splitOnP_append (p := p) text tail
  rw [List.splitOnP_eq_singleton hfree] at htail
  obtain ⟨rfl, rfl⟩ := List.cons.inj htail
  exact ⟨init, last, hsplit, happend⟩

/-- What has no separator in it lies in one of the pieces. -/
theorem exists_infix_of_free {mid : List α} (hfree : ∀ c ∈ mid, p c = false) (lead trail : List α) :
    ∃ piece ∈ (lead ++ mid ++ trail).splitOnP p, mid <:+: piece := by
  obtain ⟨init, last, -, hmid⟩ := splitOnP_append_free lead hfree
  obtain ⟨init', last', first, rest, hsplit, -, happend⟩ := splitOnP_append (p := p) (lead ++ mid) trail
  rw [hmid] at hsplit
  obtain ⟨rfl, hlast⟩ := List.append_inj' hsplit rfl
  obtain rfl := List.head_eq_of_cons_eq hlast
  rw [happend]
  exact ⟨last ++ mid ++ first, by simp, last, first, rfl⟩

theorem infix_intercalate {parts : List (List α)} {part : List α} (h : part ∈ parts) (s : List α) :
    part <:+: s.intercalate parts := by
  induction parts with
  | nil => cases h
  | cons first parts ih =>
    by_cases hnil : parts = []
    · subst hnil
      rw [List.mem_singleton.mp h]
      simp
    · rw [List.intercalate_cons_of_ne_nil hnil]
      obtain rfl | h := List.mem_cons.mp h
      · exact ⟨[], s ++ s.intercalate parts, by simp⟩
      · exact (ih h).trans (List.suffix_append _ _).isInfix

theorem flatMap_intercalate {β : Type*} {f : β → List α} {mark : β} {sep : α} (hmark : f mark = [sep])
    (parts : List (List β)) :
    ([mark].intercalate parts).flatMap f = [sep].intercalate (parts.map (·.flatMap f)) := by
  induction parts with
  | nil => rfl
  | cons part parts ih =>
    by_cases hnil : parts = []
    · subst hnil
      simp
    · rw [List.intercalate_cons_of_ne_nil hnil, List.map_cons,
        List.intercalate_cons_of_ne_nil (by simpa using hnil), List.flatMap_append,
        List.flatMap_append, ih, List.flatMap_singleton, hmark]

section

variable [DecidableEq α]

/-- The pieces of a text between the separators `sep`, stripped, without the empty ones. -/
def cuts (sep : α) (p : α → Bool) (text : List α) : List (List α) :=
  ((text.splitOn sep).map (strip p)).filter fun piece => !piece.isEmpty

variable {sep : α}

theorem notMem_of_mem_splitOn {text piece : List α} (h : piece ∈ text.splitOn sep) : sep ∉ piece := by
  induction text generalizing piece with
  | nil =>
    rw [List.splitOn_nil, List.mem_singleton] at h
    rw [h]
    exact List.not_mem_nil
  | cons c text ih =>
    rw [List.splitOn_cons_eq_if_modifyHead] at h
    by_cases hc : c = sep
    · rw [if_pos (by simpa using hc)] at h
      obtain rfl | h := List.mem_cons.mp h
      · exact List.not_mem_nil
      · exact ih h
    · rw [if_neg (by simpa using hc)] at h
      obtain ⟨first, pieces, hsplit⟩ := List.exists_cons_of_ne_nil (List.splitOn_ne_nil sep text)
      rw [hsplit] at h ih
      rw [List.modifyHead_cons] at h
      obtain rfl | h := List.mem_cons.mp h
      · rw [List.mem_cons, not_or]
        exact ⟨fun heq => hc heq.symm, ih List.mem_cons_self⟩
      · exact ih (List.mem_cons_of_mem _ h)

/-- A cut piece is a stripped piece of the text without the separator in it. -/
theorem mem_cuts {text piece : List α} (h : piece ∈ cuts sep p text) :
    piece ≠ [] ∧ ∃ raw, piece = strip p raw ∧ sep ∉ raw ∧ raw <:+: text := by
  unfold cuts at h
  obtain ⟨hmem, hne⟩ := List.mem_filter.mp h
  obtain ⟨raw, hraw, rfl⟩ := List.mem_map.mp hmem
  refine ⟨by simpa using hne, raw, rfl, notMem_of_mem_splitOn hraw, ?_⟩
  have hwithin := infix_intercalate hraw [sep]
  rwa [List.intercalate_splitOn] at hwithin

theorem cuts_append_cons (a b : List α) : cuts sep p (a ++ sep :: b) = cuts sep p a ++ cuts sep p b := by
  unfold cuts
  rw [List.splitOn_eq_splitOnP, List.splitOnP_append_cons a b (by simp), List.map_append,
    List.filter_append]
  rfl

theorem cuts_of_notMem {text : List α} (h : sep ∉ text) :
    cuts sep p text = if strip p text = [] then [] else [strip p text] := by
  unfold cuts
  rw [List.splitOn_eq_singleton h]
  by_cases hstrip : strip p text = []
  · simp [hstrip]
  · simp [hstrip]

theorem cuts_intercalate (parts : List (List α)) :
    cuts sep p ([sep].intercalate parts) = parts.flatMap (cuts sep p) := by
  induction parts with
  | nil => simp [cuts_of_notMem, strip]
  | cons part parts ih =>
    by_cases hnil : parts = []
    · subst hnil
      simp
    · rw [List.intercalate_cons_of_ne_nil hnil, List.append_assoc, List.singleton_append,
        cuts_append_cons, ih, List.flatMap_cons]

/-- White space at the end does not matter. -/
theorem cuts_append_blank (text : List α) {tail : List α} (htail : ∀ c ∈ tail, p c)
    (hsep : p sep = false) : cuts sep p (text ++ tail) = cuts sep p text := by
  have hfree : ∀ c ∈ tail, (c == sep) = false := by
    intro c hc
    rw [beq_eq_false_iff_ne]
    rintro rfl
    rw [htail c hc] at hsep
    cases hsep
  obtain ⟨init, last, hsplit, hlast⟩ := splitOnP_append_free text hfree
  unfold cuts
  rw [List.splitOn_eq_splitOnP, List.splitOn_eq_splitOnP, hsplit, hlast, List.map_append,
    List.map_append, List.map_singleton, List.map_singleton, strip_append_of_all _ htail]

theorem sum_countP_splitOn {q : α → Bool} (hsep : q sep = false) (text : List α) :
    ((text.splitOn sep).map (List.countP q)).sum = text.countP q := by
  induction text with
  | nil => simp
  | cons c text ih =>
    rw [List.splitOn_cons_eq_if_modifyHead]
    by_cases hc : c = sep
    · rw [if_pos (by simpa using hc), hc, List.map_cons, List.sum_cons, ih, List.countP_nil,
        List.countP_cons_of_neg (by simp [hsep]), Nat.zero_add]
    · rw [if_neg (by simpa using hc)]
      obtain ⟨piece, pieces, hsplit⟩ := List.exists_cons_of_ne_nil (List.splitOn_ne_nil sep text)
      rw [hsplit] at ih ⊢
      rw [List.modifyHead_cons, List.map_cons, List.sum_cons]
      rw [List.map_cons, List.sum_cons] at ih
      rw [List.countP_cons, List.countP_cons]
      omega

/-- The pieces have the characters of the text, apart from the separators and the white space. -/
theorem sum_countP_cuts {q : α → Bool} (hq : ∀ c, p c → q c = false) (hsep : q sep = false)
    (text : List α) : ((cuts sep p text).map (List.countP q)).sum = text.countP q := by
  have hpieces : ∀ pieces : List (List α),
      (((pieces.map (strip p)).filter fun piece => !piece.isEmpty).map (List.countP q)).sum =
        (pieces.map (List.countP q)).sum := by
    intro pieces
    induction pieces with
    | nil => rfl
    | cons piece pieces ih =>
      rw [List.map_cons, List.filter_cons, List.map_cons, List.sum_cons, ← ih]
      by_cases hnil : strip p piece = []
      · have hcount := countP_strip hq piece
        rw [hnil, List.countP_nil] at hcount
        simp [hnil, ← hcount]
      · rw [if_pos (by simpa using hnil), List.map_cons, List.sum_cons, countP_strip hq]
  unfold cuts
  rw [hpieces, sum_countP_splitOn hsep]

end

end Lib.Words

namespace Lib.PyText

open Lib.Words

/-- A `str`, as its characters. -/
abbrev Text := List Char

/-- `c.isspace()`. -/
def isSpace (c : Char) : Bool :=
  let n := c.toNat
  (0x9 ≤ n && n ≤ 0xd) || (0x1c ≤ n && n ≤ 0x20) || n == 0x85 || n == 0xa0 || n == 0x1680
    || (0x2000 ≤ n && n ≤ 0x200a) || n == 0x2028 || n == 0x2029 || n == 0x202f || n == 0x205f
    || n == 0x3000

/-- The zeros of the scripts with decimal digits of their own. The other nine follow each zero. -/
def scriptZeros : List Nat :=
  [0x660, 0x6f0, 0x7c0, 0x966, 0x9e6, 0xa66, 0xae6, 0xb66, 0xbe6, 0xc66, 0xce6, 0xd66, 0xde6,
    0xe50, 0xed0, 0xf20, 0x1040, 0x1090, 0x17e0, 0x1810, 0x1946, 0x19d0, 0x1a80, 0x1a90, 0x1b50,
    0x1bb0, 0x1c40, 0x1c50, 0xa620, 0xa8d0, 0xa900, 0xa9d0, 0xa9f0, 0xaa50, 0xabf0, 0xff10, 0x104a0,
    0x10d30, 0x11066, 0x110f0, 0x11136, 0x111d0, 0x112f0, 0x11450, 0x114d0, 0x11650, 0x116c0,
    0x11730, 0x118e0, 0x11950, 0x11c50, 0x11d50, 0x11da0, 0x16a60, 0x16ac0, 0x16b50, 0x1d7ce,
    0x1d7d8, 0x1d7e2, 0x1d7ec, 0x1d7f6, 0x1e140, 0x1e2f0, 0x1e950, 0x1fbf0]

/-- `unicodedata.decimal(c, None)`. -/
def decimal (c : Char) : Option Nat :=
  ((0x30 :: scriptZeros).find? fun z => z ≤ c.toNat && c.toNat < z + 10).map (c.toNat - ·)

/-- `sys.int_info.default_max_str_digits`. -/
def maxStrDigits : Nat := 4300

/-! ## Lines -/

/-- The characters at which `splitlines` breaks a text. -/
def isLineBreak (c : Char) : Bool :=
  let n := c.toNat
  (0xa ≤ n && n ≤ 0xd) || (0x1c ≤ n && n ≤ 0x1e) || n == 0x85 || n == 0x2028 || n == 0x2029

/-- `splitlines` of a text in which `line` has been read of the first line, its last character
    first. -/
def splitlinesFrom : Text → Text → List Text
  | line, [] => if line = [] then [] else [line.reverse]
  | line, '\r' :: '\n' :: cs => line.reverse :: splitlinesFrom [] cs
  | line, c :: cs =>
    if isLineBreak c then line.reverse :: splitlinesFrom [] cs else splitlinesFrom (c :: line) cs

/-- `text.splitlines()`. -/
def splitlines (text : Text) : List Text := splitlinesFrom [] text

/-! ## Integers and their texts -/

/-- `str(n)`, and `none` where it raises a `ValueError`. -/
def intText (n : Int) : Option Text :=
  let digits := Nat.toDigits 10 n.natAbs
  if maxStrDigits < digits.length then none
  else some (if n < 0 then '-' :: digits else digits)

/-- The digits of a numeral. Single underscores may stand between them. -/
def numeral : Text → Option (List Nat)
  | [] => none
  | [c] => (decimal c).map ([·])
  | c :: '_' :: cs => do
    let d ← decimal c
    let ds ← numeral cs
    return d :: ds
  | c :: cs => do
    let d ← decimal c
    let ds ← numeral cs
    return d :: ds

/-- `int` of a numeral without a sign. -/
def readNat (text : Text) : Option Nat :=
  (numeral text).bind fun digits =>
    if maxStrDigits < digits.length then none
    else some (digits.foldl (fun value d => 10 * value + d) 0)

/-- `int(text)` of a text without white space, and `none` where it raises a `ValueError`. -/
def readInt : Text → Option Int
  | '+' :: text => (readNat text).map (fun n => (n : Int))
  | '-' :: text => (readNat text).map (fun n => -(n : Int))
  | text => (readNat text).map (fun n => (n : Int))

/-! ## Reading the text of an integer -/

theorem digit_bounds {c : Char} (h : c.isDigit) : 48 ≤ c.toNat ∧ c.toNat ≤ 57 := by
  simp only [Char.isDigit, Bool.and_eq_true, decide_eq_true_eq] at h
  exact ⟨h.1, h.2⟩

theorem decimal_of_isDigit {c : Char} (h : c.isDigit) : decimal c = some (c.toNat - 48) := by
  have hc := digit_bounds h
  have hzero : (decide (0x30 ≤ c.toNat) && decide (c.toNat < 0x30 + 10)) = true := by
    simp
    omega
  unfold decimal
  rw [List.find?_cons_of_pos (by simpa using hzero)]
  rfl

theorem numeral_of_isDigit (text : Text) (hne : text ≠ []) (h : ∀ c ∈ text, c.isDigit) :
    numeral text = some (text.map fun c => c.toNat - 48) := by
  induction text with
  | nil => exact absurd rfl hne
  | cons c rest ih =>
      have hc := decimal_of_isDigit (h c List.mem_cons_self)
      cases rest with
      | nil => simp [numeral, hc]
      | cons d cs =>
          have hd : d ≠ '_' := by
            intro heq
            have hdigit := h d (by simp)
            rw [heq] at hdigit
            exact absurd hdigit (by decide)
          have hrest := ih (by simp) (fun e he => h e (List.mem_cons_of_mem _ he))
          rw [numeral]
          · simp [hc, hrest]
          · simp
          · simpa using hd

theorem readNat_toDigits {n : Nat} (h : (Nat.toDigits 10 n).length ≤ maxStrDigits) :
    readNat (Nat.toDigits 10 n) = some n := by
  have hdigits : ∀ c ∈ Nat.toDigits 10 n, c.isDigit := fun c hc =>
    Nat.isDigit_of_mem_toDigits (by decide) (by decide) hc
  have hvalue : ((Nat.toDigits 10 n).map fun c => c.toNat - 48).foldl
      (fun value d => 10 * value + d) 0 = n := by
    rw [List.foldl_map]
    exact Nat.ofDigitChars_ten_toDigits
  unfold readNat
  rw [numeral_of_isDigit _ Nat.toDigits_ne_nil hdigits, Option.bind_some, List.length_map,
    if_neg (by omega), hvalue]

theorem readInt_of_isDigit {c : Char} {cs : Text} (h : c.isDigit) :
    readInt (c :: cs) = (readNat (c :: cs)).map fun n => (n : Int) := by
  have hplus : c ≠ '+' := by
    intro heq
    rw [heq] at h
    exact absurd h (by decide)
  have hminus : c ≠ '-' := by
    intro heq
    rw [heq] at h
    exact absurd h (by decide)
  rw [readInt]
  · intro text heq
    exact hplus (List.cons.inj heq).1
  · intro text heq
    exact hminus (List.cons.inj heq).1

theorem readInt_toDigits {n : Nat} (h : (Nat.toDigits 10 n).length ≤ maxStrDigits) :
    readInt (Nat.toDigits 10 n) = some (n : Int) := by
  obtain ⟨c, cs, hcs⟩ := List.exists_cons_of_ne_nil (Nat.toDigits_ne_nil (n := n) (b := 10))
  have hc : c.isDigit := by
    apply Nat.isDigit_of_mem_toDigits (n := n) (b := 10) (by decide) (by decide)
    rw [hcs]
    exact List.mem_cons_self
  have hread := readNat_toDigits h
  rw [hcs] at hread ⊢
  rw [readInt_of_isDigit hc, hread]
  rfl

/-- The text of an integer: its digits, behind a minus sign if it is negative. -/
theorem intText_eq_some {n : Int} {text : Text} (h : intText n = some text) :
    (Nat.toDigits 10 n.natAbs).length ≤ maxStrDigits ∧
      text = if n < 0 then '-' :: Nat.toDigits 10 n.natAbs else Nat.toDigits 10 n.natAbs := by
  unfold intText at h
  by_cases hlimit : maxStrDigits < (Nat.toDigits 10 n.natAbs).length
  · rw [if_pos hlimit] at h
    cases h
  · rw [if_neg hlimit] at h
    exact ⟨by omega, (Option.some.inj h).symm⟩

/-- Reading the text of an integer gives the integer. -/
theorem readInt_intText {n : Int} {text : Text} (h : intText n = some text) :
    readInt text = some n := by
  obtain ⟨hlength, rfl⟩ := intText_eq_some h
  by_cases hneg : n < 0
  · rw [if_pos hneg, readInt, readNat_toDigits hlength]
    show some (-(n.natAbs : Int)) = some n
    congr 1
    omega
  · rw [if_neg hneg, readInt_toDigits hlength]
    congr 1
    omega

theorem isWord_intText {n : Int} {text : Text} (h : intText n = some text) :
    IsWord isSpace text := by
  have hdigit : ∀ c ∈ Nat.toDigits 10 n.natAbs, isSpace c = false := by
    intro c hc
    have hb := digit_bounds (Nat.isDigit_of_mem_toDigits (by decide) (by decide) hc)
    unfold isSpace
    simp
    omega
  obtain ⟨-, rfl⟩ := intText_eq_some h
  split
  · refine ⟨by simp, ?_⟩
    intro c hc
    obtain heq | hc := List.mem_cons.mp hc
    · rw [heq]
      decide
    · exact hdigit c hc
  · exact ⟨Nat.toDigits_ne_nil, hdigit⟩

/-! ## Integers in a text with separators -/

/-- `str(n)`, however long. -/
def str (n : Int) : Text :=
  if n < 0 then '-' :: Nat.toDigits 10 n.natAbs else Nat.toDigits 10 n.natAbs

theorem notMem_str {c : Char} (hdigit : c.isDigit = false) (hminus : c ≠ '-') (n : Int) :
    c ∉ str n := by
  have hdigits : c ∉ Nat.toDigits 10 n.natAbs := by
    intro hc
    have := Nat.isDigit_of_mem_toDigits (by decide) (by decide) hc
    rw [hdigit] at this
    cases this
  unfold str
  split
  · intro hc
    rcases List.mem_cons.mp hc with heq | hc
    · exact hminus heq
    · exact hdigits hc
  · exact hdigits

theorem str_injective : Function.Injective str := by
  have hminus : ∀ m : Nat, '-' ∉ Nat.toDigits 10 m := by
    intro m hc
    exact absurd (Nat.isDigit_of_mem_toDigits (by decide) (by decide) hc) (by decide)
  have habs : ∀ m m' : Nat, Nat.toDigits 10 m = Nat.toDigits 10 m' → m = m' := by
    intro m m' h
    have hback := congrArg (fun cs => Nat.ofDigitChars 10 cs 0) h
    simpa only [Nat.ofDigitChars_toDigits (by decide : 1 < 10) (by decide : 10 ≤ 10)] using hback
  intro a b h
  unfold str at h
  split at h
  · split at h
    · have := habs _ _ (List.cons.inj h).2
      omega
    · exact absurd (h ▸ List.mem_cons_self) (hminus b.natAbs)
  · split at h
    · exact absurd (h ▸ List.mem_cons_self) (hminus a.natAbs)
    · have := habs _ _ h
      omega

/-- Parts without the separator are found again in the text. -/
theorem intercalate_inj {parts parts' : List Text} {sep : Char} (hne : parts ≠ [])
    (hne' : parts' ≠ []) (hfree : ∀ part ∈ parts, sep ∉ part) (hfree' : ∀ part ∈ parts', sep ∉ part)
    (h : [sep].intercalate parts = [sep].intercalate parts') : parts = parts' := by
  rw [← List.splitOn_intercalate sep hfree hne, h, List.splitOn_intercalate sep hfree' hne']

/-! ## Writing what was read -/

theorem decimal_lt {c : Char} {d : Nat} (h : decimal c = some d) : d < 10 := by
  obtain ⟨z, hz, rfl⟩ := Option.map_eq_some_iff.mp h
  have hbounds := List.find?_some hz
  simp only [Bool.and_eq_true, decide_eq_true_eq] at hbounds
  omega

/-- The digits of a numeral are decimal digits, whatever their script. -/
theorem numeral_lt {text : Text} {digits : List Nat} (h : numeral text = some digits) :
    ∀ d ∈ digits, d < 10 := by
  induction text using numeral.induct generalizing digits with
  | case1 => cases h
  | case2 c =>
    obtain ⟨d, hd, rfl⟩ := Option.map_eq_some_iff.mp h
    simpa using decimal_lt hd
  | case3 c cs ih =>
    rw [numeral] at h
    obtain ⟨d, hd, h⟩ := Option.bind_eq_some_iff.mp h
    obtain ⟨ds, hds, h⟩ := Option.bind_eq_some_iff.mp h
    rw [← Option.some.inj h]
    exact List.forall_mem_cons.mpr ⟨decimal_lt hd, ih hds⟩
  | case4 c cs hne hunderscore ih =>
    rw [numeral] at h
    · obtain ⟨d, hd, h⟩ := Option.bind_eq_some_iff.mp h
      obtain ⟨ds, hds, h⟩ := Option.bind_eq_some_iff.mp h
      rw [← Option.some.inj h]
      exact List.forall_mem_cons.mpr ⟨decimal_lt hd, ih hds⟩
    · exact hne
    · exact hunderscore

/-- The value of digits is below the power of ten of their number. -/
theorem foldl_digits_lt (digits : List Nat) (h : ∀ d ∈ digits, d < 10) (value : Nat) :
    digits.foldl (fun value d => 10 * value + d) value < (value + 1) * 10 ^ digits.length := by
  induction digits generalizing value with
  | nil => simp
  | cons d digits ih =>
    rw [List.forall_mem_cons] at h
    have hrest := ih h.2 (10 * value + d)
    have hd := h.1
    have hstep : (10 * value + d + 1) * 10 ^ digits.length ≤
        (10 * (value + 1)) * 10 ^ digits.length := Nat.mul_le_mul_right _ (by omega)
    rw [List.foldl_cons, List.length_cons, Nat.pow_succ, Nat.mul_comm (10 ^ digits.length),
      ← Nat.mul_assoc, Nat.mul_comm (value + 1)]
    exact Nat.lt_of_lt_of_le hrest hstep

theorem readNat_digits {text : Text} {n : Nat} (h : readNat text = some n) :
    (Nat.toDigits 10 n).length ≤ maxStrDigits := by
  obtain ⟨digits, hdigits, h⟩ := Option.bind_eq_some_iff.mp h
  split at h
  · cases h
  · next hlength =>
    have hlt := foldl_digits_lt digits (numeral_lt hdigits) 0
    rw [Option.some.inj h, Nat.zero_add, Nat.one_mul] at hlt
    rw [Nat.length_toDigits_le_iff (by omega) (by unfold maxStrDigits; omega)]
    exact Nat.lt_of_lt_of_le hlt (Nat.pow_le_pow_right (by omega) (by omega))

/-- What `int` has read, `str` writes: a numeral has no more digits than its value may have. -/
theorem intText_of_readInt {text : Text} {n : Int} (h : readInt text = some n) :
    ∃ text', intText n = some text' := by
  have hread : ∃ text' m, readNat text' = some m ∧ n.natAbs = m := by
    unfold readInt at h
    split at h
    · obtain ⟨v, hv, rfl⟩ := Option.map_eq_some_iff.mp h
      obtain ⟨m, hm, hv⟩ := Option.bind_eq_some_iff.mp hv
      exact ⟨_, m, hm, by rw [← Option.some.inj hv]; exact Int.natAbs_natCast m⟩
    · obtain ⟨v, hv, rfl⟩ := Option.map_eq_some_iff.mp h
      obtain ⟨m, hm, hv⟩ := Option.bind_eq_some_iff.mp hv
      exact ⟨_, m, hm, by rw [← Option.some.inj hv, Int.natAbs_neg]; exact Int.natAbs_natCast m⟩
    · obtain ⟨v, hv, rfl⟩ := Option.map_eq_some_iff.mp h
      obtain ⟨m, hm, hv⟩ := Option.bind_eq_some_iff.mp hv
      exact ⟨_, m, hm, by rw [← Option.some.inj hv]; exact Int.natAbs_natCast m⟩
  obtain ⟨text', m, hm, hn⟩ := hread
  have hdigits : (Nat.toDigits 10 n.natAbs).length ≤ maxStrDigits := by
    rw [hn]
    exact readNat_digits hm
  unfold intText
  dsimp only
  rw [if_neg (by omega)]
  exact ⟨_, rfl⟩

end Lib.PyText
