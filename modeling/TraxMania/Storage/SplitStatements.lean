import TraxMania.Storage.Migrations

/-
  `_split_statements` beside the lexical structure of SQL: strings in the three quotes, comments
  that `--` begins, and the semicolons outside of both. The runner works on raw lines and raw
  semicolons; it finds the statements of a text exactly when nothing in a string or a comment looks
  to it like something else.
-/

namespace TraxMania.Storage

open Lib.PyText Lib.Words

/-! ## Tokens -/

/-- What ends a line. -/
inductive LineEnd where
  | crlf
  | one (c : Char) (h : isLineBreak c)
deriving DecidableEq

def LineEnd.text : LineEnd → Text
  | crlf => ['\r', '\n']
  | one c _ => [c]

def lineFeed : LineEnd := .one '\n' rfl

/-- What a character is part of. -/
inductive Part where
  | code
  | string
  | comment
deriving DecidableEq

inductive Token where
  /-- A semicolon outside of strings and comments. -/
  | separator
  | char (c : Char) (part : Part)
  | lineEnd (e : LineEnd)
deriving DecidableEq

/-- The quotes around a string. -/
inductive Quote where
  | single
  | double
  | back
deriving DecidableEq

def Quote.char : Quote → Char
  | single => '\x27'
  | double => '\x22'
  | back => '\x60'

/-- The quote that a character is. -/
def quoteOf (c : Char) : Option Quote := [Quote.single, .double, .back].find? (·.char = c)

/-- The state of the lexer between two characters. -/
inductive Mode where
  | code
  | string (quote : Quote)
  /-- After a backslash in a string. -/
  | escape (quote : Quote)
deriving DecidableEq

/-- `--`, and then white space or the end of the line. -/
def startsComment : Text → Bool
  | ['-', '-'] => true
  | '-' :: '-' :: c :: _ => isSpace c
  | _ => false

/-- The mode after a character of a string. Between back quotes there are no escapes. -/
def stringMode (quote : Quote) (c : Char) : Mode :=
  if c = quote.char then .code
  else if c = '\\' ∧ quote ≠ .back then .escape quote
  else .string quote

/-- The tokens of a line, and the mode at its end. -/
def lexLine : Mode → Text → List Token × Mode
  | .code, [] => ([], .code)
  | .string quote, [] => ([], .string quote)
  | .escape quote, [] => ([], .string quote)
  | .code, c :: cs =>
    if startsComment (c :: cs) then ((c :: cs).map (Token.char · .comment), .code)
    else if c = ';' then
      let (tokens, mode) := lexLine .code cs
      (.separator :: tokens, mode)
    else
      match quoteOf c with
      | some quote =>
        let (tokens, mode) := lexLine (.string quote) cs
        (.char c .string :: tokens, mode)
      | none =>
        let (tokens, mode) := lexLine .code cs
        (.char c .code :: tokens, mode)
  | .string quote, c :: cs =>
    let (tokens, mode) := lexLine (stringMode quote c) cs
    (.char c .string :: tokens, mode)
  | .escape quote, c :: cs =>
    let (tokens, mode) := lexLine (.string quote) cs
    (.char c .string :: tokens, mode)

/-- The lines of a text with their ends, as `splitlines` breaks it. The last line is taken to end
    with a line feed if it has no end. -/
def sqlLinesFrom : Text → Text → List (Text × LineEnd)
  | line, [] => if line = [] then [] else [(line.reverse, lineFeed)]
  | line, '\r' :: '\n' :: cs => (line.reverse, .crlf) :: sqlLinesFrom [] cs
  | line, c :: cs =>
    if h : isLineBreak c then (line.reverse, .one c h) :: sqlLinesFrom [] cs
    else sqlLinesFrom (c :: line) cs

def sqlLines (sql : Text) : List (Text × LineEnd) := sqlLinesFrom [] sql

/-- The line is a comment, apart from white space before it. -/
def isCommentLine (line : Text) : Bool := startsComment (line.dropWhile isSpace)

/-- The mode at the end of a line. -/
def nextMode (mode : Mode) (line : Text) : Mode :=
  if mode = .code ∧ isCommentLine line then .code else (lexLine mode line).2

/-- The tokens of the lines. A comment at the start of a line goes with its line, and outside of
    strings every line ends alike. -/
def lexLines : Mode → List (Text × LineEnd) → List Token
  | _, [] => []
  | mode, (line, e) :: lines =>
    (if mode = .code ∧ isCommentLine line then []
      else (lexLine mode line).1 ++ [.lineEnd (if nextMode mode line = .code then lineFeed else e)])
      ++ lexLines (nextMode mode line) lines

/-! ## Statements -/

namespace Token

/-- The text of a token. -/
def text : Token → Text
  | separator => [';']
  | char c _ => [c]
  | lineEnd e => e.text

/-- The text that is left of a token when its lines have been joined. -/
def joined : Token → Text
  | separator => [';']
  | char c _ => [c]
  | lineEnd _ => ['\n']

/-- White space. -/
def blank : Token → Bool
  | separator => false
  | char c _ => isSpace c
  | lineEnd _ => true

/-- Something besides comments and white space. -/
def solid : Token → Bool
  | char c part => part != .comment && !isSpace c
  | _ => false

end Token

/-- The pieces of a text between its separators. -/
def pieces (sql : Text) : List (List Token) := (lexLines .code (sqlLines sql)).splitOn .separator

/-- The piece is more than comments. -/
def IsStatement (piece : List Token) : Bool := piece.any Token.solid

/-- The statements of a text: split at the semicolons outside of strings and comments, stripped, and
    not empty. -/
def statements (sql : Text) : List Text :=
  ((pieces sql).filter IsStatement).map fun piece => strip isSpace (piece.flatMap Token.text)

/-! ## Where the runner finds the statements -/

/-- The line begins with `--`, apart from white space. -/
def startsDashes (line : Text) : Bool := "--".toList.isPrefixOf (line.dropWhile isSpace)

/-- Every line that begins with `--` is a comment. `mode` is the mode at the first line. -/
def DashesComment : Mode → List (Text × LineEnd) → Prop
  | _, [] => True
  | mode, (line, _) :: lines =>
    (startsDashes line → mode = .code ∧ isCommentLine line) ∧
      DashesComment (nextMode mode line) lines

/-- Every line outside of strings that begins with `--` is a comment. -/
def DashesInCode : Mode → List (Text × LineEnd) → Prop
  | _, [] => True
  | mode, (line, _) :: lines =>
    (startsDashes line → mode = .code → isCommentLine line) ∧ DashesInCode (nextMode mode line) lines

/-- No piece is comments alone: one that is no statement has only white space, and semicolons. -/
def NoBareComment (sql : Text) : Prop :=
  ∀ piece ∈ pieces sql, IsStatement piece = false →
    ∀ c ∈ piece.flatMap Token.text, isSpace c ∨ c = ';'

/-- Nothing in the text looks to the runner like something else. -/
structure Splittable (sql : Text) : Prop where
  dashes : DashesComment .code (sqlLines sql)
  comments : NoBareComment sql
  /-- No semicolon in the strings and the comments of a statement. -/
  semicolons : ∀ stmt ∈ statements sql, ';' ∉ stmt
  /-- Only line feeds in the strings of a statement. -/
  lineEnds : ∀ stmt ∈ statements sql, ∀ c ∈ stmt, isLineBreak c → c = '\n'

/-! ## The text that the runner cuts -/

/-- The lines that the runner keeps, each with a line feed behind it. -/
def keptText (lines : List (Text × LineEnd)) : Text :=
  (lines.filter fun line => !startsDashes line.1).flatMap fun line => line.1 ++ ['\n']

theorem keptText_cons (line : Text × LineEnd) (lines : List (Text × LineEnd)) :
    keptText (line :: lines) =
      if startsDashes line.1 then keptText lines else line.1 ++ '\n' :: keptText lines := by
  unfold keptText
  rw [List.filter_cons]
  by_cases hline : startsDashes line.1
  · simp [hline]
  · simp [hline]

theorem splitlinesFrom_eq (line sql : Text) :
    splitlinesFrom line sql = (sqlLinesFrom line sql).map Prod.fst := by
  fun_induction splitlinesFrom line sql with
  | case1 => rfl
  | case2 line hline =>
    rw [sqlLinesFrom, if_neg hline]
    rfl
  | case3 line cs ih => rw [sqlLinesFrom, List.map_cons, ih]
  | case4 line c cs hcrlf h ih =>
    rw [sqlLinesFrom, dif_pos h, List.map_cons, ih]
    exact hcrlf
  | case5 line c cs hcrlf h ih =>
    rw [sqlLinesFrom, dif_neg h, ih]
    exact hcrlf

theorem splitlines_eq (sql : Text) : splitlines sql = (sqlLines sql).map Prod.fst :=
  splitlinesFrom_eq [] sql

/-- A line feed behind the last line changes nothing. -/
theorem flatMap_lineFeed (lines : List Text) :
    ∃ tail, (∀ c ∈ tail, isSpace c) ∧
      lines.flatMap (· ++ ['\n']) = ['\n'].intercalate lines ++ tail := by
  induction lines with
  | nil => exact ⟨[], by simp, rfl⟩
  | cons line lines ih =>
    obtain ⟨tail, htail, hlines⟩ := ih
    rw [List.flatMap_cons, hlines]
    by_cases hnil : lines = []
    · subst hnil
      exact ⟨'\n' :: tail, by simpa using ⟨by decide, htail⟩, by simp⟩
    · refine ⟨tail, htail, ?_⟩
      rw [List.intercalate_cons_of_ne_nil hnil]
      simp

theorem splitStatements_eq (sql : Text) :
    splitStatements sql = cuts ';' isSpace (keptText (sqlLines sql)) := by
  have hkept : keptText (sqlLines sql) =
      ((splitlines sql).filter fun line => !startsDashes line).flatMap (· ++ ['\n']) := by
    unfold keptText
    rw [splitlines_eq, List.filter_map, List.flatMap_map]
    rfl
  obtain ⟨tail, htail, hlines⟩ :=
    flatMap_lineFeed ((splitlines sql).filter fun line => !startsDashes line)
  rw [hkept, hlines, cuts_append_blank _ htail (by decide)]
  rfl

/-! ## The text of the tokens -/

theorem lexLine_joined (mode : Mode) (line : Text) :
    (lexLine mode line).1.flatMap Token.joined = line := by
  fun_induction lexLine mode line with
  | case1 => rfl
  | case2 => rfl
  | case3 => rfl
  | case4 c cs =>
    rw [List.flatMap_map]
    exact List.flatMap_singleton' _
  | _ => simp_all [Token.joined]

theorem joined_lexLines_cons (mode : Mode) (line : Text) (e : LineEnd) (lines : List (Text × LineEnd)) :
    (lexLines mode ((line, e) :: lines)).flatMap Token.joined =
      if mode = .code ∧ isCommentLine line then
        (lexLines (nextMode mode line) lines).flatMap Token.joined
      else line ++ '\n' :: (lexLines (nextMode mode line) lines).flatMap Token.joined := by
  rw [lexLines, List.flatMap_append]
  split
  · rfl
  · rw [List.flatMap_append, lexLine_joined, List.append_assoc]
    rfl

theorem startsDashes_of_isCommentLine {line : Text} (h : isCommentLine line) : startsDashes line := by
  unfold isCommentLine startsComment at h
  unfold startsDashes
  split at h
  · next heq =>
    rw [heq]
    rfl
  · next heq =>
    rw [heq]
    rfl
  · cases h

/-- Where every line that begins with `--` is a comment, the runner keeps what the lexer keeps. -/
theorem joined_lexLines {mode : Mode} {lines : List (Text × LineEnd)} (h : DashesComment mode lines) :
    (lexLines mode lines).flatMap Token.joined = keptText lines := by
  induction lines generalizing mode with
  | nil => rfl
  | cons line lines ih =>
    obtain ⟨line, e⟩ := line
    obtain ⟨hline, hlines⟩ := h
    rw [joined_lexLines_cons, keptText_cons, ih hlines]
    by_cases hcomment : mode = .code ∧ isCommentLine line
    · rw [if_pos hcomment, if_pos (startsDashes_of_isCommentLine hcomment.2)]
    · rw [if_neg hcomment, if_neg fun hdashes => hcomment (hline hdashes)]

/-- Something that is neither white space nor a semicolon. -/
def weighs (c : Char) : Bool := !isSpace c && c != ';'

theorem weighs_of_isSpace (c : Char) (h : isSpace c) : weighs c = false := by
  simp [weighs, h]

theorem exists_of_startsDashes {line : Text} (h : startsDashes line) :
    ∃ w rest, line = (w ++ ['-', '-']) ++ rest ∧ ∀ c ∈ w, isSpace c := by
  obtain ⟨rest, hrest⟩ := List.isPrefixOf_iff_prefix.mp h
  refine ⟨line.takeWhile isSpace, rest, ?_, fun c hc => List.mem_takeWhile_imp hc⟩
  conv_lhs => rw [← List.takeWhile_append_dropWhile (p := isSpace) (l := line), ← hrest]
  rw [List.append_assoc]
  rfl

/-- A line that begins with `--` weighs something. -/
theorem countP_of_startsDashes {line : Text} (h : startsDashes line) : 0 < line.countP weighs := by
  obtain ⟨w, rest, rfl, -⟩ := exists_of_startsDashes h
  exact List.countP_pos_iff.mpr ⟨'-', by simp, by decide⟩

/-- The runner keeps no more than the lexer, and as much only where every line that begins with `--`
    is a comment. -/
theorem countP_keptText (mode : Mode) (lines : List (Text × LineEnd)) :
    (keptText lines).countP weighs ≤ ((lexLines mode lines).flatMap Token.joined).countP weighs ∧
      ((keptText lines).countP weighs =
          ((lexLines mode lines).flatMap Token.joined).countP weighs → DashesComment mode lines) := by
  induction lines generalizing mode with
  | nil => exact ⟨Nat.le_refl _, fun _ => trivial⟩
  | cons line lines ih =>
    obtain ⟨line, e⟩ := line
    obtain ⟨hle, heq⟩ := ih (nextMode mode line)
    have hfeed : ∀ text : Text, (line ++ '\n' :: text).countP weighs =
        line.countP weighs + text.countP weighs := by
      intro text
      rw [List.countP_append, List.countP_cons_of_neg (by decide)]
    rw [joined_lexLines_cons, keptText_cons]
    by_cases hcomment : mode = .code ∧ isCommentLine line
    · rw [if_pos (startsDashes_of_isCommentLine hcomment.2), if_pos hcomment]
      exact ⟨hle, fun h => ⟨fun _ => hcomment, heq h⟩⟩
    · rw [if_neg hcomment, hfeed]
      by_cases hdashes : startsDashes line
      · have hpos := countP_of_startsDashes hdashes
        rw [if_pos hdashes]
        exact ⟨by omega, fun h => by omega⟩
      · rw [if_neg hdashes, hfeed]
        exact ⟨by omega, fun h => ⟨fun h' => absurd h' hdashes, heq (by omega)⟩⟩

/-! ## Piece by piece -/

/-- The tokens of a text, cut at the semicolons, fall into its pieces first. -/
theorem cuts_joined (sql : Text) :
    cuts ';' isSpace ((lexLines .code (sqlLines sql)).flatMap Token.joined) =
      (pieces sql).flatMap fun piece => cuts ';' isSpace (piece.flatMap Token.joined) := by
  have hpieces : [Token.separator].intercalate (pieces sql) = lexLines .code (sqlLines sql) :=
    List.intercalate_splitOn Token.separator
  have hmark : Token.joined .separator = [';'] := rfl
  rw [← hpieces, flatMap_intercalate hmark, cuts_intercalate, List.flatMap_map]

theorem isSpace_of_isLineBreak {c : Char} (h : isLineBreak c) : isSpace c := by
  simp only [isLineBreak, isSpace, Bool.or_eq_true, Bool.and_eq_true, decide_eq_true_eq,
    beq_iff_eq] at h ⊢
  omega

/-- How much a piece weighs. -/
def weight (piece : List Token) : Nat := (piece.flatMap Token.joined).countP weighs

/-- The two texts of a piece weigh the same: the end of a line is white space. -/
theorem countP_text (piece : List Token) : (piece.flatMap Token.text).countP weighs = weight piece := by
  have htoken : ∀ t : Token, t.text.countP weighs = t.joined.countP weighs := by
    intro t
    cases t with
    | separator => rfl
    | char c part => rfl
    | lineEnd e =>
      cases e with
      | crlf => rfl
      | one c h =>
        have hc : weighs c = false := weighs_of_isSpace c (isSpace_of_isLineBreak h)
        simp [Token.text, Token.joined, LineEnd.text, hc]
        decide
  unfold weight
  rw [List.countP_flatMap, List.countP_flatMap]
  congr 1
  exact List.map_congr_left fun t _ => htoken t

theorem sum_weight (sql : Text) :
    ((pieces sql).map weight).sum =
      ((lexLines .code (sqlLines sql)).flatMap Token.joined).countP weighs := by
  have hcuts : ∀ text : Text,
      ((cuts ';' isSpace text).map (List.countP weighs)).sum = text.countP weighs :=
    sum_countP_cuts weighs_of_isSpace (by decide)
  rw [← hcuts, cuts_joined]
  induction pieces sql with
  | nil => rfl
  | cons piece pieces ih =>
    rw [List.map_cons, List.sum_cons, List.flatMap_cons, List.map_append, List.sum_append, hcuts, ih]
    rfl

/-- The statements weigh what their pieces weigh. -/
theorem sum_countP_statements (sql : Text) :
    ((statements sql).map (List.countP weighs)).sum =
      (((pieces sql).filter IsStatement).map weight).sum := by
  unfold statements
  rw [List.map_map]
  congr 1
  apply List.map_congr_left
  intro piece _
  show (strip isSpace (piece.flatMap Token.text)).countP weighs = weight piece
  rw [countP_strip weighs_of_isSpace, countP_text]

theorem sum_filter_eq_iff {β : Type*} (q : β → Bool) (f : β → Nat) (l : List β) :
    ((l.filter q).map f).sum ≤ (l.map f).sum ∧
      (((l.filter q).map f).sum = (l.map f).sum ↔ ∀ b ∈ l, q b = false → f b = 0) := by
  induction l with
  | nil => simp
  | cons b l ih =>
    obtain ⟨hle, hiff⟩ := ih
    rw [List.filter_cons, List.map_cons, List.sum_cons, List.forall_mem_cons, ← hiff]
    cases hq : q b with
    | true =>
      simp only [if_true, List.map_cons, List.sum_cons, reduceCtorEq, false_implies, true_and]
      omega
    | false =>
      simp only [reduceCtorEq, if_false, true_implies]
      omega

/-- A piece that is no statement weighs nothing exactly when it has only white space and
    semicolons. -/
theorem weight_eq_zero_iff (piece : List Token) :
    weight piece = 0 ↔ ∀ c ∈ piece.flatMap Token.text, isSpace c ∨ c = ';' := by
  rw [← countP_text, List.countP_eq_zero]
  apply forall_congr'
  intro c
  apply imp_congr_right
  intro _
  simp only [weighs, Bool.and_eq_true, Bool.not_eq_true', bne_iff_ne, not_and,
    not_not]
  cases isSpace c <;> simp

/-- No piece is comments alone exactly when the statements weigh as much as all of the text. -/
theorem noBareComment_iff (sql : Text) :
    NoBareComment sql ↔ ((statements sql).map (List.countP weighs)).sum =
      ((lexLines .code (sqlLines sql)).flatMap Token.joined).countP weighs := by
  rw [sum_countP_statements, ← sum_weight, (sum_filter_eq_iff IsStatement weight (pieces sql)).2]
  unfold NoBareComment
  simp only [weight_eq_zero_iff]

/-! ## What the runner makes of a piece -/

/-- A text without other line ends than line feeds is as the runner has joined it. -/
theorem joined_eq_text {tokens : List Token}
    (h : ∀ c ∈ tokens.flatMap Token.text, isLineBreak c → c = '\n') :
    tokens.flatMap Token.joined = tokens.flatMap Token.text := by
  induction tokens with
  | nil => rfl
  | cons t tokens ih =>
    rw [List.flatMap_cons, List.forall_mem_append] at h
    rw [List.flatMap_cons, List.flatMap_cons, ih h.2]
    congr 1
    cases t with
    | separator => rfl
    | char c part => rfl
    | lineEnd e =>
      cases e with
      | crlf => exact absurd (h.1 '\r' (by simp [Token.text, LineEnd.text]) rfl) (by decide)
      | one c hc =>
        show ['\n'] = [c]
        rw [h.1 c (by simp [Token.text, LineEnd.text]) hc]

/-- Both texts of a piece are stripped token by token. -/
theorem strip_tokens {f : Token → Text} (hend : ∀ e, ∀ c ∈ f (.lineEnd e), isSpace c)
    (hchar : ∀ c part, f (.char c part) = [c]) (hsep : f .separator = [';']) (piece : List Token) :
    strip isSpace (piece.flatMap f) = (strip Token.blank piece).flatMap f := by
  apply strip_flatMap
  · intro t ht
    cases t with
    | separator => cases ht
    | char c part =>
      rw [hchar]
      exact List.forall_mem_singleton.mpr ht
    | lineEnd e => exact hend e
  · intro t ht
    cases t with
    | separator => exact ⟨';', hsep, by decide⟩
    | char c part => exact ⟨c, hchar c part, ht⟩
    | lineEnd e => cases ht

theorem isSpace_of_mem_lineEnd (e : LineEnd) : ∀ c ∈ e.text, isSpace c := by
  cases e with
  | crlf => exact List.all_eq_true.mp rfl
  | one c h => exact List.forall_mem_singleton.mpr (isSpace_of_isLineBreak h)

theorem strip_joined {piece : List Token}
    (h : ∀ c ∈ strip isSpace (piece.flatMap Token.text), isLineBreak c → c = '\n') :
    strip isSpace (piece.flatMap Token.joined) = strip isSpace (piece.flatMap Token.text) := by
  have htext : strip isSpace (piece.flatMap Token.text) =
      (strip Token.blank piece).flatMap Token.text :=
    strip_tokens isSpace_of_mem_lineEnd (fun c part => rfl) rfl piece
  have hfeed : ∀ c ∈ ['\n'], isSpace c := List.forall_mem_singleton.mpr rfl
  have hjoined : strip isSpace (piece.flatMap Token.joined) =
      (strip Token.blank piece).flatMap Token.joined :=
    strip_tokens (fun _ => hfeed) (fun c part => rfl) rfl piece
  rw [htext] at h ⊢
  rw [hjoined, joined_eq_text h]

theorem text_of_solid {t : Token} (h : t.solid) : ∃ c, t.text = [c] ∧ isSpace c = false := by
  cases t with
  | separator => cases h
  | char c part =>
    simp only [Token.solid, Bool.and_eq_true, Bool.not_eq_true'] at h
    exact ⟨c, rfl, h.2⟩
  | lineEnd e => cases h

/-- A statement has something that is not white space. -/
theorem strip_ne_nil {piece : List Token} (h : IsStatement piece) :
    strip isSpace (piece.flatMap Token.text) ≠ [] := by
  obtain ⟨t, ht, hsolid⟩ := List.any_eq_true.mp h
  obtain ⟨c, htext, hc⟩ := text_of_solid hsolid
  intro hnil
  have hspace := strip_eq_nil_iff.mp hnil c (List.mem_flatMap.mpr ⟨t, ht, by simp [htext]⟩)
  rw [hc] at hspace
  cases hspace

theorem cuts_of_isStatement {piece : List Token} (h : IsStatement piece)
    (hsemicolon : ';' ∉ strip isSpace (piece.flatMap Token.text))
    (hlineEnd : ∀ c ∈ strip isSpace (piece.flatMap Token.text), isLineBreak c → c = '\n') :
    cuts ';' isSpace (piece.flatMap Token.joined) = [strip isSpace (piece.flatMap Token.text)] := by
  have hjoined := strip_joined hlineEnd
  rw [← hjoined, mem_strip_of_not (by decide)] at hsemicolon
  rw [cuts_of_notMem hsemicolon, hjoined, if_neg (strip_ne_nil h)]

theorem cuts_of_weight_eq_zero {piece : List Token} (h : weight piece = 0) :
    cuts ';' isSpace (piece.flatMap Token.joined) = [] := by
  rw [List.eq_nil_iff_forall_not_mem]
  intro stmt hstmt
  obtain ⟨hne, raw, rfl, hsep, hwithin⟩ := mem_cuts hstmt
  apply hne
  rw [strip_eq_nil_iff]
  intro c hc
  have hweight := List.countP_eq_zero.mp h c (hwithin.subset hc)
  have hsemicolon : c ≠ ';' := fun heq => hsep (heq ▸ hc)
  simpa [weighs, hsemicolon] using hweight

/-! ## The statements that the runner finds -/

theorem semicolon_notMem_splitStatements {sql stmt : Text} (h : stmt ∈ splitStatements sql) :
    ';' ∉ stmt := by
  rw [splitStatements_eq] at h
  obtain ⟨-, raw, rfl, hsep, -⟩ := mem_cuts h
  exact fun hmem => hsep ((strip_isInfix raw).subset hmem)

theorem isLineBreak_of_mem_sqlLinesFrom {line sql : Text} (h : ∀ c ∈ line, isLineBreak c = false) :
    ∀ l ∈ sqlLinesFrom line sql, ∀ c ∈ l.1, isLineBreak c = false := by
  have hreverse : ∀ line : Text, (∀ c ∈ line, isLineBreak c = false) →
      ∀ c ∈ line.reverse, isLineBreak c = false :=
    fun line hline c hc => hline c (List.mem_reverse.mp hc)
  fun_induction sqlLinesFrom line sql with
  | case1 => simp
  | case2 line hne => simpa using h
  | case3 line cs ih =>
    exact List.forall_mem_cons.mpr ⟨hreverse line h, ih (by simp)⟩
  | case4 line c cs hcrlf hc ih =>
    exact List.forall_mem_cons.mpr ⟨hreverse line h, ih (by simp)⟩
  | case5 line c cs hcrlf hc ih =>
    apply ih
    exact List.forall_mem_cons.mpr ⟨by simpa using hc, h⟩

/-- There is no line end in a line. -/
theorem isLineBreak_of_mem_sqlLines {sql : Text} {line : Text × LineEnd} (h : line ∈ sqlLines sql) :
    ∀ c ∈ line.1, isLineBreak c = false :=
  isLineBreak_of_mem_sqlLinesFrom (by simp) line h

theorem infix_keptText {sql stmt : Text} (h : stmt ∈ splitStatements sql) :
    stmt <:+: keptText (sqlLines sql) := by
  rw [splitStatements_eq] at h
  obtain ⟨-, raw, rfl, -, hwithin⟩ := mem_cuts h
  exact (strip_isInfix raw).trans hwithin

theorem lineEnds_splitStatements {sql stmt : Text} (h : stmt ∈ splitStatements sql) :
    ∀ c ∈ stmt, isLineBreak c → c = '\n' := by
  intro c hc hbreak
  have hmem := (infix_keptText h).subset hc
  unfold keptText at hmem
  obtain ⟨line, hline, hc⟩ := List.mem_flatMap.mp hmem
  obtain hc | hc := List.mem_append.mp hc
  · rw [isLineBreak_of_mem_sqlLines (List.mem_of_mem_filter hline) c hc] at hbreak
    cases hbreak
  · exact List.mem_singleton.mp hc

theorem flatMap_eq_map_filter {α β : Type*} {q : α → Bool} {f : α → β} {g : α → List β} {l : List α}
    (hpos : ∀ a ∈ l, q a → g a = [f a]) (hneg : ∀ a ∈ l, q a = false → g a = []) :
    l.flatMap g = (l.filter q).map f := by
  induction l with
  | nil => rfl
  | cons a l ih =>
    rw [List.forall_mem_cons] at hpos hneg
    rw [List.flatMap_cons, ih hpos.2 hneg.2, List.filter_cons]
    cases hq : q a with
    | true => simp [hpos.1 hq]
    | false => simp [hneg.1 hq]

theorem splitStatements_of_splittable {sql : Text} (h : Splittable sql) :
    splitStatements sql = statements sql := by
  have hmem : ∀ piece ∈ pieces sql, IsStatement piece →
      strip isSpace (piece.flatMap Token.text) ∈ statements sql := by
    intro piece hpiece hstatement
    exact List.mem_map_of_mem (List.mem_filter.mpr ⟨hpiece, hstatement⟩)
  rw [splitStatements_eq, ← joined_lexLines h.dashes, cuts_joined]
  apply flatMap_eq_map_filter
  · intro piece hpiece hstatement
    have hstmt := hmem piece hpiece hstatement
    exact cuts_of_isStatement hstatement (h.semicolons _ hstmt) (h.lineEnds _ hstmt)
  · intro piece hpiece hstatement
    exact cuts_of_weight_eq_zero ((weight_eq_zero_iff piece).mpr (h.comments piece hpiece hstatement))

/-! ## A line that begins with dashes, inside a string -/

theorem startsDashes_append (line rest : Text) (h : startsDashes line = false) :
    startsDashes (line ++ '\n' :: rest) = true → startsDashes rest = true := by
  unfold startsDashes at h ⊢
  rw [List.dropWhile_append]
  split
  · rw [List.dropWhile_cons_of_pos (by decide)]
    exact id
  · intro hstarts
    exfalso
    match hline : line.dropWhile isSpace with
    | [] => simp_all
    | [c] =>
      rw [hline] at hstarts
      simp [List.isPrefixOf] at hstarts
    | c :: d :: cs =>
      rw [hline] at h hstarts
      have hdashed : "--".toList.isPrefixOf (c :: d :: cs) = true := by
        simpa [List.isPrefixOf] using hstarts
      rw [hdashed] at h
      cases h

theorem startsDashes_of_append {w : Text} (hw : ∀ c ∈ w, isSpace c) (rest : Text) :
    startsDashes (w ++ '-' :: '-' :: rest) := by
  unfold startsDashes
  rw [List.dropWhile_append_of_pos hw, List.dropWhile_cons_of_neg (by decide)]
  rfl

theorem startsDashes_keptText (lines : List (Text × LineEnd)) : startsDashes (keptText lines) = false := by
  induction lines with
  | nil => rfl
  | cons line lines ih =>
    rw [keptText_cons]
    by_cases hline : startsDashes line.1
    · rwa [if_pos hline]
    · rw [if_neg hline]
      by_contra hnot
      rw [startsDashes_append _ _ (by simpa using hline) (by simpa using hnot)] at ih
      cases ih

/-- No line of the text that the runner cuts begins with `--`. -/
theorem not_infix_keptText {lines : List (Text × LineEnd)}
    (hlines : ∀ line ∈ lines, ∀ c ∈ line.1, isLineBreak c = false) {w : Text}
    (hw : ∀ c ∈ w, isSpace c) : ¬ ('\n' :: (w ++ ['-', '-'])) <:+: keptText lines := by
  induction lines with
  | nil =>
    intro h
    exact absurd (List.eq_nil_of_infix_nil h) (List.cons_ne_nil _ _)
  | cons line lines ih =>
    rw [List.forall_mem_cons] at hlines
    have hrest := ih hlines.2
    rw [keptText_cons]
    by_cases hline : startsDashes line.1
    · rwa [if_pos hline]
    · rw [if_neg hline]
      rintro ⟨lead, trail, heq⟩
      have hstarts : w ++ ['-', '-'] ++ trail ≠ keptText lines := by
        intro heq
        have hdashes := startsDashes_keptText lines
        rw [← heq, List.append_assoc] at hdashes
        exact absurd (startsDashes_of_append hw trail) (by simpa using hdashes)
      rw [List.append_assoc, List.append_eq_append_iff] at heq
      obtain ⟨mid, hmid, heq⟩ | ⟨mid, rfl, heq⟩ := heq
      · cases mid with
        | nil => exact hstarts (List.cons.inj heq).2
        | cons c mid =>
          -- the line feed would be in the line
          have hc := hlines.1 c (by rw [hmid]; simp)
          rw [← (List.cons.inj heq).1] at hc
          cases hc
      · cases mid with
        | nil => exact hstarts (List.cons.inj heq).2.symm
        | cons c mid =>
          refine hrest ⟨mid, trail, ?_⟩
          rw [List.append_assoc]
          exact (List.cons.inj heq).2.symm

/-- No line of a statement that the runner finds begins with `--`, but for the first. -/
theorem not_infix_splitStatements {sql stmt : Text} (h : stmt ∈ splitStatements sql) {w : Text}
    (hw : ∀ c ∈ w, isSpace c) : ¬ ('\n' :: (w ++ ['-', '-'])) <:+: stmt := fun hwithin =>
  not_infix_keptText (fun _ (hline : _ ∈ sqlLines sql) => isLineBreak_of_mem_sqlLines hline) hw
    (hwithin.trans (infix_keptText h))

/-- Something solid stands behind the last separator. -/
def Opened (tokens : List Token) : Prop :=
  ∃ before t after, tokens = before ++ t :: after ∧ t.solid ∧ Token.separator ∉ after

theorem Opened.append {tokens : List Token} (h : Opened tokens) {t : Token} (ht : t ≠ .separator) :
    Opened (tokens ++ [t]) := by
  obtain ⟨before, solid, after, rfl, hsolid, hfree⟩ := h
  refine ⟨before, solid, after ++ [t], by simp, hsolid, ?_⟩
  rw [List.mem_append, not_or]
  exact ⟨hfree, by simpa using ht.symm⟩

theorem isSpace_of_quoteOf {c : Char} {quote : Quote} (h : quoteOf c = some quote) :
    isSpace c = false := by
  have hc := List.find?_some h
  rw [← of_decide_eq_true hc]
  cases quote <;> decide

/-- A string that is open at the end of a line has been opened behind the last separator. -/
theorem opened_lexLine {mode : Mode} {line : Text} {before : List Token}
    (h : mode ≠ .code → Opened before) :
    (lexLine mode line).2 ≠ .code → Opened (before ++ (lexLine mode line).1) := by
  fun_induction lexLine mode line generalizing before with
  | case1 => exact fun hmode => absurd rfl hmode
  | case2 quote => simpa using h
  | case3 quote => simpa using h
  | case4 c cs hcomment => exact fun hmode => absurd rfl hmode
  | case5 cs tokens mode hlex hcomment ih =>
    have hrest := @ih (before ++ [.separator]) (fun hmode => absurd rfl hmode)
    simpa [hlex] using hrest
  | case6 c cs hcomment hsep quote hquote tokens mode hlex ih =>
    have hopened : Opened (before ++ [.char c .string]) := by
      refine ⟨before, .char c .string, [], rfl, ?_, List.not_mem_nil⟩
      simp [Token.solid, isSpace_of_quoteOf hquote]
    have hrest := @ih (before ++ [.char c .string]) (fun _ => hopened)
    simpa [hlex] using hrest
  | case7 c cs hcomment hsep hquote tokens mode hlex ih =>
    have hrest := @ih (before ++ [.char c .code]) (fun hmode => absurd rfl hmode)
    simpa [hlex] using hrest
  | case8 quote c cs tokens mode hlex ih =>
    have hopened := (h (by simp)).append (t := .char c .string) (by simp)
    have hrest := @ih (before ++ [.char c .string]) (fun _ => hopened)
    simpa [hlex] using hrest
  | case9 quote c cs tokens mode hlex ih =>
    have hopened := (h (by simp)).append (t := .char c .string) (by simp)
    have hrest := @ih (before ++ [.char c .string]) (fun _ => hopened)
    simpa [hlex] using hrest

/-- Text without quotes and backslashes in a string belongs to the string. -/
theorem lexLine_plain {mode : Mode} (h : mode ≠ .code) {cs : Text}
    (hplain : ∀ c ∈ cs, quoteOf c = none ∧ c ≠ '\\') (rest : Text) :
    ∃ tokens, (lexLine mode (cs ++ rest)).1 = cs.map (Token.char · .string) ++ tokens := by
  induction cs generalizing mode with
  | nil => exact ⟨_, rfl⟩
  | cons c cs ih =>
    rw [List.forall_mem_cons] at hplain
    cases mode with
    | code => exact absurd rfl h
    | string quote =>
      have hmode : stringMode quote c = .string quote := by
        have hquote := List.find?_eq_none.mp hplain.1.1 quote (by cases quote <;> simp)
        unfold stringMode
        rw [if_neg (fun hc => hquote (by simp [hc])), if_neg (fun hc => hplain.1.2 hc.1)]
      obtain ⟨tokens, htokens⟩ := @ih (.string quote) (by simp) hplain.2
      refine ⟨tokens, ?_⟩
      rw [List.cons_append, lexLine, hmode]
      show Token.char c .string :: (lexLine (.string quote) (cs ++ rest)).1 = _
      rw [htokens]
      rfl
    | escape quote =>
      obtain ⟨tokens, htokens⟩ := @ih (.string quote) (by simp) hplain.2
      refine ⟨tokens, ?_⟩
      rw [List.cons_append, lexLine]
      show Token.char c .string :: (lexLine (.string quote) (cs ++ rest)).1 = _
      rw [htokens]
      rfl

theorem plain_of_isSpace {c : Char} (h : isSpace c) : quoteOf c = none ∧ c ≠ '\\' := by
  constructor
  · cases hquote : quoteOf c with
    | none => rfl
    | some quote =>
      rw [isSpace_of_quoteOf hquote] at h
      cases h
  · rintro rfl
    cases h

/-- Where a line that begins with `--` begins in a string, the dashes follow a line end in an open
    string. `before` are the tokens before the lines. -/
theorem exists_dashes {mode : Mode} {lines : List (Text × LineEnd)} {before : List Token}
    (hbefore : mode ≠ .code → ∃ tokens e, before = tokens ++ [.lineEnd e] ∧ Opened tokens)
    (hcode : DashesInCode mode lines) (hnot : ¬ DashesComment mode lines) :
    ∃ tokens e w after, before ++ lexLines mode lines =
        tokens ++ .lineEnd e :: ((w ++ ['-', '-']).map (Token.char · .string) ++ after) ∧
      Opened tokens ∧ ∀ c ∈ w, isSpace c := by
  induction lines generalizing mode before with
  | nil => exact absurd trivial hnot
  | cons line lines ih =>
    obtain ⟨line, e⟩ := line
    obtain ⟨hline, hlines⟩ := hcode
    rw [lexLines]
    by_cases hdashes : startsDashes line → mode = .code ∧ isCommentLine line
    · have hrest : ¬ DashesComment (nextMode mode line) lines := fun h => hnot ⟨hdashes, h⟩
      by_cases hcomment : mode = .code ∧ isCommentLine line
      · have hmode : nextMode mode line = .code := by
          unfold nextMode
          rw [if_pos hcomment]
        rw [if_pos hcomment]
        exact ih (fun h => absurd hmode h) hlines hrest
      · have hmode : nextMode mode line = (lexLine mode line).2 := by
          unfold nextMode
          rw [if_neg hcomment]
        have hopened : mode ≠ .code → Opened before := by
          intro h
          obtain ⟨tokens, e, rfl, hopened⟩ := hbefore h
          exact hopened.append (by simp)
        rw [if_neg hcomment, ← List.append_assoc]
        refine ih (fun h => ?_) hlines hrest
        rw [hmode] at h
        exact ⟨before ++ (lexLine mode line).1, _, (List.append_assoc _ _ _).symm,
          opened_lexLine hopened h⟩
    · rw [Classical.not_imp] at hdashes
      obtain ⟨hstarts, hnone⟩ := hdashes
      have hmode : mode ≠ .code := fun h => hnone ⟨h, hline hstarts h⟩
      obtain ⟨tokens, e', rfl, hopened⟩ := hbefore hmode
      obtain ⟨w, rest, rfl, hspace⟩ := exists_of_startsDashes hstarts
      have hplain : ∀ c ∈ w ++ ['-', '-'], quoteOf c = none ∧ c ≠ '\\' := by
        intro c hc
        obtain hc | hc := List.mem_append.mp hc
        · exact plain_of_isSpace (hspace c hc)
        · simp only [List.mem_cons, List.not_mem_nil, or_false, or_self] at hc
          rw [hc]
          decide
      obtain ⟨after, hafter⟩ := lexLine_plain hmode hplain rest
      rw [if_neg hnone, hafter]
      refine ⟨tokens, e', w, after ++ .lineEnd (if nextMode mode (w ++ ['-', '-'] ++ rest) = .code
        then lineFeed else e) :: lexLines (nextMode mode (w ++ ['-', '-'] ++ rest)) lines, ?_,
        hopened, hspace⟩
      simp

/-- A statement has all that stands between something solid and a character of a string behind it,
    without a separator. -/
theorem exists_statement {sql : Text} {before inside after : List Token} {t : Token} {d : Char}
    (hlex : lexLines .code (sqlLines sql) =
      before ++ t :: (inside ++ [.char d .string]) ++ after)
    (ht : t.solid) (hfree : Token.separator ∉ inside) (hd : isSpace d = false) :
    ∃ stmt ∈ statements sql, inside.flatMap Token.text ++ [d] <:+: stmt := by
  have hmid : ∀ u ∈ t :: (inside ++ [.char d .string]), (u == Token.separator) = false := by
    intro u hu
    rw [beq_eq_false_iff_ne]
    rintro rfl
    obtain rfl | hu := List.mem_cons.mp hu
    · cases ht
    · obtain hu | hu := List.mem_append.mp hu
      · exact hfree hu
      · cases List.mem_singleton.mp hu
  obtain ⟨piece, hpiece, hwithin⟩ := exists_infix_of_free hmid before after
  rw [← hlex] at hpiece
  have hstatement : IsStatement piece :=
    List.any_eq_true.mpr ⟨t, hwithin.subset List.mem_cons_self, ht⟩
  refine ⟨strip isSpace (piece.flatMap Token.text),
    List.mem_map_of_mem (List.mem_filter.mpr ⟨hpiece, hstatement⟩), ?_⟩
  obtain ⟨c, htext, hc⟩ := text_of_solid ht
  have hpieceText : (c :: inside.flatMap Token.text ++ [d]) <:+: piece.flatMap Token.text := by
    have hflat := hwithin.flatMap Token.text
    rwa [List.flatMap_cons, List.flatMap_append, htext] at hflat
  exact (List.suffix_cons c _).isInfix.trans (infix_strip hc hd hpieceText)

/-- Where the runner finds the statements, no line in a string begins with `--`. -/
theorem dashesComment_of_eq {sql : Text} (hcode : DashesInCode .code (sqlLines sql))
    (heq : splitStatements sql = statements sql) : DashesComment .code (sqlLines sql) := by
  by_contra hnot
  obtain ⟨tokens, e, w, after, hlex, ⟨before, t, inside, rfl, hsolid, hfree⟩, hw⟩ :=
    @exists_dashes .code (sqlLines sql) [] (fun h => absurd rfl h) hcode hnot
  have hinside : Token.separator ∉
      inside ++ .lineEnd e :: (w ++ ['-']).map (Token.char · .string) := by
    simpa using hfree
  have hline : lexLines .code (sqlLines sql) = before ++
      t :: ((inside ++ .lineEnd e :: (w ++ ['-']).map (Token.char · .string)) ++ [.char '-' .string]) ++
        after := by
    simpa using hlex
  obtain ⟨stmt, hstmt, hwithin⟩ := exists_statement hline hsolid hinside (by decide)
  rw [← heq] at hstmt
  have hchars : ∀ cs : Text, (cs.map (Token.char · .string)).flatMap Token.text = cs := by
    intro cs
    rw [List.flatMap_map]
    exact List.flatMap_singleton' cs
  rw [List.flatMap_append, List.flatMap_cons, hchars] at hwithin
  have hlineEnds := lineEnds_splitStatements hstmt
  cases e with
  | crlf =>
    have hreturn := hlineEnds '\r' (hwithin.subset (by simp [Token.text, LineEnd.text])) rfl
    cases hreturn
  | one c hc =>
    have hfeed := hlineEnds c (hwithin.subset (by simp [Token.text, LineEnd.text])) hc
    subst hfeed
    refine not_infix_splitStatements hstmt hw (List.IsInfix.trans ?_ hwithin)
    exact ⟨inside.flatMap Token.text, [], by simp [Token.text, LineEnd.text]⟩

/-- The runner finds the statements of every splittable text. And a text of which it finds them is
    splittable, if every line outside of strings that begins with `--` is a comment, or no piece is
    comments alone. -/
theorem splitStatements_eq_statements_iff (sql : Text) :
    (Splittable sql → splitStatements sql = statements sql) ∧
      (DashesInCode .code (sqlLines sql) ∨ NoBareComment sql →
        splitStatements sql = statements sql → Splittable sql) := by
  refine ⟨splitStatements_of_splittable, fun hor heq => ?_⟩
  have hcuts : ((statements sql).map (List.countP weighs)).sum =
      (keptText (sqlLines sql)).countP weighs := by
    rw [← heq, splitStatements_eq]
    exact sum_countP_cuts weighs_of_isSpace (by decide) _
  have hdashes : DashesComment .code (sqlLines sql) := by
    obtain hcode | hcomments := hor
    · exact dashesComment_of_eq hcode heq
    · rw [noBareComment_iff, hcuts] at hcomments
      exact (countP_keptText .code (sqlLines sql)).2 hcomments
  have hcomments : NoBareComment sql := by
    rw [noBareComment_iff, hcuts, joined_lexLines hdashes]
  refine ⟨hdashes, hcomments, ?_, ?_⟩
  · intro stmt hstmt
    rw [← heq] at hstmt
    exact semicolon_notMem_splitStatements hstmt
  · intro stmt hstmt
    rw [← heq] at hstmt
    exact lineEnds_splitStatements hstmt

-- Neither: the comment behind `a` and the line `--;` make up for each other.
example : splitStatements "a; -- ;\n;\n--;".toList = statements "a; -- ;\n;\n--;".toList := by
  decide +kernel

/-- A semicolon in a string makes two statements out of one. -/
theorem string_semicolon_cut :
    splitStatements "INSERT INTO t VALUES ('a;b')".toList =
        ["INSERT INTO t VALUES ('a".toList, "b')".toList] ∧
      statements "INSERT INTO t VALUES ('a;b')".toList = ["INSERT INTO t VALUES ('a;b')".toList] ∧
      splitStatements "INSERT INTO t VALUES ('a;b')".toList ≠
        statements "INSERT INTO t VALUES ('a;b')".toList := by
  decide +kernel

end TraxMania.Storage
