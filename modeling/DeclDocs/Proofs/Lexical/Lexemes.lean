import DeclDocs.Proofs.Lexical.Breaks
import DeclDocs.Proofs.Text.Lines

/-!
# The lexical grammar of the scanner

Source text is a sequence of lexemes: characters of code, literals, block comments and line
comments.  Literals and block comments may run over line ends.  The scanner sees one line at a time
and carries what is open into the next one; put together, what it reads of the lines is what the
lexemes say.

* `Lexeme`, `IsLexed`: lexemes, and sequences of them that can be told apart again.
* `scanText`: the lines of a text scanned one after the other, taken as one line.
* `scanText_lexeme`: what the scanner reads of one lexeme, whatever follows it.
* `scanLines_lexemes`: code, skeleton, counts and final state of a lexed text.
-/

namespace DeclDocs

open Text (beginsWith)

/-! ## §1 Lexemes -/

/-- An item of a literal's body: a character, or a backslash with the character behind it. -/
inductive LiteralItem where
  | plain (c : Char)
  | escaped (c : Char)
deriving DecidableEq, Repr

namespace LiteralItem

def text : LiteralItem → Text
  | plain c => [c]
  | escaped c => ['\\', c]

/-- A character that neither closes a literal with the given quote nor begins an escape. -/
def fitsIn (quote : Char) : LiteralItem → Bool
  | plain c => c != quote && c != '\\'
  | escaped _ => true

end LiteralItem

/-- The text of a literal between its quotes. -/
def bodyText (body : List LiteralItem) : Text :=
  body.flatMap LiteralItem.text

/-- A piece of source text. -/
inductive Lexeme where
  /-- A character of code; a line feed is one. -/
  | code (c : Char) (unquoted : isQuote c = false)
  /-- A string or a character literal. -/
  | literal (quote : Char) (body : List LiteralItem) (quoted : isQuote quote = true)
      (fits : ∀ item ∈ body, item.fitsIn quote = true)
  /-- A block comment: behind its opening the first `*/` is the one at its end. -/
  | blockComment (body : Text)
      (closes : Text.cut? (body ++ "*/".toList) "*/" = some (body, []))
  /-- A comment up to the end of its line. -/
  | lineComment (body : Text) (oneLine : '\n' ∉ body)

/-- The text without its line feeds. -/
def withoutBreaks (text : Text) : Text :=
  text.filter (· != '\n')

namespace Lexeme

def text : Lexeme → Text
  | code c _ => [c]
  | literal quote body _ _ => quote :: (bodyText body ++ [quote])
  | blockComment body _ => "/*".toList ++ (body ++ "*/".toList)
  | lineComment body _ => "//".toList ++ body

/-- What is left of the lexeme once comments and line feeds are gone. -/
def codeText : Lexeme → Text
  | code c _ => withoutBreaks [c]
  | literal quote body _ _ => quote :: (withoutBreaks (bodyText body) ++ [quote])
  | blockComment _ _ => [' ']
  | lineComment _ _ => []

/-- The same with the body of a literal blanked, one space for each byte of its characters. -/
def skeletonText : Lexeme → Text
  | literal quote body _ _ =>
    quote :: ((withoutBreaks (bodyText body)).flatMap
      (fun c => List.replicate c.utf8Size ' ') ++ [quote])
  | lexeme => lexeme.codeText

/-- The lexeme is the character `c` of code. -/
def isCode (c : Char) : Lexeme → Bool
  | code d _ => d == c
  | _ => false

/-- The lexeme ends where `rest` begins: a slash of code opens no comment with what follows it, and
a line comment goes up to the end of its line. -/
def EndsBefore (rest : Text) : Lexeme → Prop
  | code c _ => c = '/' → beginsWith makesComment rest = false
  | lineComment _ _ => beginsWith (· != '\n') rest = false
  | _ => True

instance (rest : Text) : (lexeme : Lexeme) → Decidable (lexeme.EndsBefore rest)
  | code _ _ => inferInstanceAs (Decidable (_ → _))
  | literal _ _ _ _ => .isTrue trivial
  | blockComment _ _ => .isTrue trivial
  | lineComment _ _ => inferInstanceAs (Decidable (_ = _))

end Lexeme

/-- The text that the lexemes make up. -/
def lexedText (lexemes : List Lexeme) : Text :=
  lexemes.flatMap Lexeme.text

/-- Every lexeme ends where the next one begins. -/
def IsLexed : List Lexeme → Prop
  | [] => True
  | lexeme :: lexemes => lexeme.EndsBefore (lexedText lexemes) ∧ IsLexed lexemes

instance decidableIsLexed : (lexemes : List Lexeme) → Decidable (IsLexed lexemes)
  | [] => .isTrue trivial
  | _ :: lexemes =>
    have := decidableIsLexed lexemes
    inferInstanceAs (Decidable (_ ∧ _))

/-! ## §2 Scanning lines together -/

/-- The glyphs of all the lines, and what is open at their end. -/
def gather (state : ScanState) (lines : List Text) : ScannedLine :=
  ⟨(scanLines state lines).flatMap ScannedLine.glyphs, stateAfter state lines⟩

theorem gather_cons (state : ScanState) (line : Text) (lines : List Text) :
    gather state (line :: lines) =
      (gather (state.scan line).state lines).prepend (state.scan line).glyphs := rfl

/-- An empty line at the end changes nothing. -/
theorem gather_append_nil (state : ScanState) (lines : List Text) :
    gather state (lines ++ [[]]) = gather state lines := by
  induction lines generalizing state with
  | nil => rfl
  | cons line lines ih => rw [List.cons_append, gather_cons, gather_cons, ih]

/-- Scans the pieces between the line feeds of a text. -/
def scanText (state : ScanState) (text : Text) : ScannedLine :=
  gather state (Text.split (· == '\n') text)

/-- In text without carriage returns the lines are the pieces between line feeds, but for an empty
piece at the end. -/
theorem gather_lines (state : ScanState) {text : Text} (h : '\r' ∉ text) :
    gather state text.lines = scanText state text := by
  have hpieces : ∀ piece ∈ Text.split (· == '\n') text, Text.dropReturn piece = piece := by
    intro piece hmem
    have hreturn : '\r' ∉ piece := fun hc => h (Text.mem_of_mem_split hmem hc)
    have hnone : Text.before? piece ['\r'] = none := by
      rw [Option.eq_none_iff_forall_ne_some]
      intro front hfront
      apply hreturn
      simp [Text.before?_eq_some_iff.mp hfront]
    simp [Text.dropReturn, hnone]
  unfold scanText Text.lines
  rcases List.eq_nil_or_concat' (Text.split (· == '\n') text) with hnil | ⟨front, last, hsplit⟩
  · exact absurd hnil (Text.split_ne_nil _ text)
  · rw [hsplit] at hpieces ⊢
    have hfront : front.map Text.dropReturn = front := by
      conv_rhs => rw [← List.map_id front]
      exact List.map_congr_left fun piece hmem => hpieces piece (by simp [hmem])
    rw [Text.closeLines_append, hfront]
    cases last with
    | nil => simp [gather_append_nil]
    | cons => rfl

section ScanText

variable {state next : ScanState} {c : Char} {rest : Text}

/-- A line feed leaves open what is open. -/
theorem scanText_break (state : ScanState) (rest : Text) :
    scanText state ('\n' :: rest) = scanText state rest := rfl

/-- What the scanner does at the beginning of a line it does at the beginning of a text: the rest of
the line is where the rest of the text begins. -/
theorem scanText_append {front : Text} (hfront : '\n' ∉ front) {glyphs : List Glyph}
    (h : ∀ piece, piece <+: rest → '\n' ∉ piece →
      state.scan (front ++ piece) = (next.scan piece).prepend glyphs) :
    scanText state (front ++ rest) = (scanText next rest).prepend glyphs := by
  have hplain : ∀ c ∈ front, (c == '\n') = false := by
    intro c hc
    rw [beq_eq_false_iff_ne]
    rintro rfl
    exact hfront hc
  obtain ⟨piece, pieces, hrest, hsplit⟩ := Text.exists_split_append hplain rest
  have hmem : piece ∈ Text.split (· == '\n') rest := by
    rw [hrest]
    exact List.mem_cons_self ..
  have hbreak : '\n' ∉ piece := Text.not_mem_of_mem_split (p := (· == '\n')) rfl hmem
  rw [scanText, scanText, hsplit, hrest, gather_cons, gather_cons,
    h piece (Text.isPrefix_of_split_eq_cons hrest) hbreak]
  exact (ScannedLine.prepend_prepend glyphs _ _).symm

/-- A step of the scanner that reads one glyph. -/
theorem scanText_cons (hc : c ≠ '\n') {glyph : Glyph}
    (h : ∀ piece, piece <+: rest → state.scan (c :: piece) = (next.scan piece).push glyph) :
    scanText state (c :: rest) = (scanText next rest).push glyph := by
  have hfront : '\n' ∉ [c] := by simpa using hc.symm
  have hstep : ∀ piece, piece <+: rest → '\n' ∉ piece →
      state.scan ([c] ++ piece) = (next.scan piece).prepend [glyph] :=
    fun piece hpiece _ => h piece hpiece
  exact scanText_append hfront hstep

end ScanText

/-- What begins a part at the beginning of a text begins the text. -/
theorem beginsWith_of_isPrefix {p : Char → Bool} {piece rest : Text} (hpiece : piece <+: rest)
    (h : beginsWith p rest = false) : beginsWith p piece = false := by
  obtain ⟨more, rfl⟩ := hpiece
  cases piece with
  | nil => rfl
  | cons c piece => exact h

/-! ## §3 The scanner on one lexeme -/

/-- What the scanner reads of the lexeme. -/
def Lexeme.glyphs : Lexeme → List Glyph
  | code c _ => (withoutBreaks [c]).map .code
  | literal quote body _ _ =>
    .code quote :: ((withoutBreaks (bodyText body)).map .literal ++ [.code quote])
  | blockComment _ _ => [.code ' ']
  | lineComment _ _ => []

/-- A character of code. -/
theorem scanText_code {c : Char} (unquoted : isQuote c = false) {rest : Text}
    (hslash : c = '/' → beginsWith makesComment rest = false) :
    scanText {} (c :: rest) = (scanText {} rest).prepend ((withoutBreaks [c]).map .code) := by
  by_cases hbreak : c = '\n'
  · subst hbreak
    exact scanText_break {} rest
  · have hkept : withoutBreaks [c] = [c] := by simp [withoutBreaks, hbreak]
    rw [hkept]
    apply scanText_cons hbreak
    intro piece hpiece
    by_cases hc : c = '/'
    · subst hc
      exact ScanState.scan_slash (beginsWith_of_isPrefix hpiece (hslash rfl))
    · apply ScanState.scan_plain
      simp only [isQuote, Bool.or_eq_false_iff, beq_eq_false_iff_ne] at unquoted
      simp [ScanState.isPlain, unquoted, hc]

section Literal

variable {state : ScanState} (hinside : state.InLiteral)

include hinside

/-- A backslash and the character behind it; a line feed there ends the line, and the literal goes
on in the next one. -/
theorem scanText_escaped (c : Char) (rest : Text) :
    scanText state ('\\' :: c :: rest) =
      (scanText state rest).prepend ((withoutBreaks ['\\', c]).map .literal) := by
  by_cases hbreak : c = '\n'
  · subst hbreak
    have hend : scanText state (['\\'] ++ '\n' :: rest) =
        (scanText state ('\n' :: rest)).prepend [.literal '\\'] := by
      apply scanText_append (by decide)
      intro piece hpiece hpieceBreak
      -- the line ends behind the backslash
      have hnil : piece = [] := by
        cases piece with
        | nil => rfl
        | cons d piece =>
          obtain rfl := (List.cons_prefix_cons.mp hpiece).1
          exact absurd (List.mem_cons_self ..) hpieceBreak
      subst hnil
      exact hinside.scan_content (state.ne_quote (by decide) (by decide)) fun _ => rfl
    exact hend
  · have hkept : withoutBreaks ['\\', c] = ['\\', c] := by simp [withoutBreaks, hbreak]
    have hfront : '\n' ∉ ['\\', c] := by simpa using fun h => hbreak h.symm
    rw [hkept]
    exact scanText_append hfront fun piece _ _ => hinside.scan_escape c piece

theorem scanText_item {item : LiteralItem} (hfits : item.fitsIn state.quote = true) (rest : Text) :
    scanText state (item.text ++ rest) =
      (scanText state rest).prepend ((withoutBreaks item.text).map .literal) := by
  cases item with
  | escaped c => exact scanText_escaped hinside c rest
  | plain c =>
    simp only [LiteralItem.fitsIn, Bool.and_eq_true, bne_iff_ne, ne_eq] at hfits
    by_cases hbreak : c = '\n'
    · subst hbreak
      exact scanText_break state rest
    · have hkept : withoutBreaks [c] = [c] := by simp [withoutBreaks, hbreak]
      rw [LiteralItem.text, hkept]
      apply scanText_cons hbreak
      intro piece _
      exact hinside.scan_content hfits.1 fun hback => absurd hback hfits.2

/-- The body of a literal leaves the literal open. -/
theorem scanText_body {body : List LiteralItem}
    (hfits : ∀ item ∈ body, item.fitsIn state.quote = true) (rest : Text) :
    scanText state (bodyText body ++ rest) =
      (scanText state rest).prepend ((withoutBreaks (bodyText body)).map .literal) := by
  induction body with
  | nil => rfl
  | cons item body ih =>
    have hcons : bodyText (item :: body) = item.text ++ bodyText body := rfl
    have hbreaks : withoutBreaks (item.text ++ bodyText body) =
        withoutBreaks item.text ++ withoutBreaks (bodyText body) := List.filter_append ..
    rw [hcons, List.append_assoc, scanText_item hinside (hfits item (List.mem_cons_self ..)),
      ih fun other hmem => hfits other (List.mem_cons_of_mem _ hmem), hbreaks, List.map_append,
      ScannedLine.prepend_prepend]

end Literal

theorem scanText_literal {quote : Char} (quoted : isQuote quote = true) {body : List LiteralItem}
    (hfits : ∀ item ∈ body, item.fitsIn quote = true) (rest : Text) :
    scanText {} (quote :: (bodyText body ++ quote :: rest)) = (scanText {} rest).prepend
      (.code quote :: ((withoutBreaks (bodyText body)).map .literal ++ [.code quote])) := by
  have hquote : quote = '"' ∨ quote = '\'' := by simpa [isQuote] using quoted
  have hbreak : quote ≠ '\n' := by rcases hquote with rfl | rfl <;> decide
  obtain ⟨hinside, hown⟩ := ScanState.inLiteral_ofQuote hquote
  have hopens : scanText {} (quote :: (bodyText body ++ quote :: rest)) =
      (scanText (.ofQuote (some quote)) (bodyText body ++ quote :: rest)).push (.code quote) :=
    scanText_cons hbreak fun piece _ => ScanState.scan_openQuote hquote piece
  have hcloses : scanText (.ofQuote (some quote)) (quote :: rest) =
      (scanText {} rest).push (.code quote) := by
    apply scanText_cons hbreak
    intro piece _
    have hscan := hinside.scan_quote piece
    rwa [hown] at hscan
  rw [hopens, scanText_body hinside (by rwa [hown]), hcloses]
  simp [ScannedLine.push, ScannedLine.prepend]

/-- From inside a block comment the first `*/` ends it, on whichever line it stands. -/
theorem scanText_comment {body : Text}
    (h : Text.cut? (body ++ "*/".toList) "*/" = some (body, [])) (rest : Text) :
    scanText .comment (body ++ ("*/".toList ++ rest)) = (scanText {} rest).push (.code ' ') := by
  induction body with
  | nil =>
    have hcloses : ∀ piece, piece <+: rest → '\n' ∉ piece →
        ScanState.comment.scan ("*/".toList ++ piece) =
          (ScanState.scan {} piece).prepend [.code ' '] :=
      fun piece _ _ => ScanState.scan_comment_close rfl piece
    exact scanText_append (by decide) hcloses
  | cons c body ih =>
    rw [List.cons_append, Text.cut?_cons] at h
    cases hafter : Text.after? (c :: (body ++ "*/".toList)) "*/" with
    | some found =>
      rw [hafter] at h
      simp at h
    | none =>
      rw [hafter] at h
      have hbody : Text.cut? (body ++ "*/".toList) "*/" = some (body, []) := by
        obtain ⟨⟨front, found⟩, hcut, heq⟩ := Option.map_eq_some_iff.mp h
        simp only [Prod.mk.injEq, List.cons.injEq, true_and] at heq
        rw [hcut, heq.1, heq.2]
      rw [List.cons_append]
      by_cases hbreak : c = '\n'
      · subst hbreak
        rw [scanText_break]
        exact ih hbody
      · have hstep : scanText .comment ([c] ++ (body ++ ("*/".toList ++ rest))) =
            (scanText .comment (body ++ ("*/".toList ++ rest))).prepend [] := by
          apply scanText_append (by simpa using fun h => hbreak h.symm)
          intro piece hpiece _
          refine ScanState.scan_comment_step rfl fun hstar => ?_
          -- behind a star of the body stands no slash
          subst hstar
          refine beginsWith_of_isPrefix hpiece ?_
          cases body with
          | nil => rfl
          | cons d body =>
            rw [List.cons_append, Text.beginsWith_cons, beq_eq_false_iff_ne]
            rintro rfl
            simp [Text.after?] at hafter
        rw [← List.singleton_append, hstep, ih hbody, ScannedLine.prepend_nil]

theorem scanText_blockComment {body : Text}
    (h : Text.cut? (body ++ "*/".toList) "*/" = some (body, [])) (rest : Text) :
    scanText {} ("/*".toList ++ (body ++ ("*/".toList ++ rest))) =
      (scanText {} rest).push (.code ' ') := by
  have hopens : scanText {} ("/*".toList ++ (body ++ ("*/".toList ++ rest))) =
      (scanText .comment (body ++ ("*/".toList ++ rest))).prepend [] :=
    scanText_append (by decide) fun piece _ _ => rfl
  rw [hopens, ScannedLine.prepend_nil, scanText_comment h]

/-- A line comment leaves nothing of the line behind it. -/
theorem scanText_lineComment {body : Text} (oneLine : '\n' ∉ body) {rest : Text}
    (hrest : beginsWith (· != '\n') rest = false) :
    scanText {} ("//".toList ++ (body ++ rest)) = scanText {} rest := by
  have hfront : '\n' ∉ "//".toList ++ body := by simpa using oneLine
  have hline : scanText {} (("//".toList ++ body) ++ rest) = (scanText {} rest).prepend [] := by
    apply scanText_append hfront
    intro piece hpiece hbreak
    -- the rest of the line is empty
    have hnil : piece = [] := by
      cases piece with
      | nil => rfl
      | cons d piece =>
        have hd : beginsWith (· != '\n') (d :: piece) = false :=
          beginsWith_of_isPrefix hpiece hrest
        obtain rfl : d = '\n' := by simpa using hd
        exact absurd (List.mem_cons_self ..) hbreak
    subst hnil
    rfl
  rw [← List.append_assoc, hline, ScannedLine.prepend_nil]

/-- **The scanner reads a lexeme as its own glyphs** and is outside comments and literals again,
whatever follows. -/
theorem scanText_lexeme (lexeme : Lexeme) {rest : Text} (h : lexeme.EndsBefore rest) :
    scanText {} (lexeme.text ++ rest) = (scanText {} rest).prepend lexeme.glyphs := by
  cases lexeme with
  | code c unquoted => exact scanText_code unquoted h
  | literal quote body quoted fits =>
    rw [Lexeme.text, List.cons_append, List.append_assoc]
    exact scanText_literal quoted fits rest
  | blockComment body closes =>
    rw [Lexeme.text, List.append_assoc, List.append_assoc]
    exact scanText_blockComment closes rest
  | lineComment body oneLine =>
    rw [Lexeme.text, List.append_assoc]
    exact scanText_lineComment oneLine h

/-! ## §4 Lexed text -/

theorem scanText_lexedText {lexemes : List Lexeme} (h : IsLexed lexemes) :
    scanText {} (lexedText lexemes) = ⟨lexemes.flatMap Lexeme.glyphs, {}⟩ := by
  induction lexemes with
  | nil => rfl
  | cons lexeme lexemes ih =>
    obtain ⟨hends, hlexed⟩ := h
    rw [lexedText, List.flatMap_cons, ← lexedText, scanText_lexeme lexeme hends, ih hlexed]
    rfl

namespace Lexeme

theorem codeOf_glyphs (lexeme : Lexeme) : codeOf lexeme.glyphs = lexeme.codeText := by
  cases lexeme <;>
    simp [glyphs, codeText, codeOf, Glyph.code, Glyph.literal, Function.comp_def]

theorem skeletonOf_glyphs (lexeme : Lexeme) : skeletonOf lexeme.glyphs = lexeme.skeletonText := by
  cases lexeme <;>
    simp [glyphs, skeletonText, codeText, skeletonOf, Glyph.skeletonPart, Glyph.code,
      Glyph.literal, List.flatMap_map]

/-- A delimiter is counted where it is a character of code. -/
theorem countCode_glyphs (lexeme : Lexeme) {c : Char} (hspace : c ≠ ' ') (hbreak : c ≠ '\n')
    (hquote : isQuote c = false) :
    countCode c lexeme.glyphs = if lexeme.isCode c then 1 else 0 := by
  cases lexeme with
  | code d unquoted =>
    by_cases hd : d = c
    · subst hd
      simp [glyphs, withoutBreaks, countCode, isCode, Glyph.shown, Glyph.code, hbreak]
    · by_cases hfeed : d = '\n'
      · simp [glyphs, withoutBreaks, countCode, isCode, hfeed, hbreak.symm]
      · simp [glyphs, withoutBreaks, countCode, isCode, Glyph.shown, Glyph.code, hd, hfeed]
  | literal quote body quoted fits =>
    have hne : quote ≠ c := by
      rintro rfl
      simp [hquote] at quoted
    simp [glyphs, countCode, isCode, Glyph.shown, Glyph.code, Glyph.literal, List.countP_append,
      List.countP_map, Function.comp_def, hne, hspace.symm]
  | blockComment body closes =>
    simp [glyphs, countCode, isCode, Glyph.shown, Glyph.code, hspace.symm]
  | lineComment body oneLine => rfl

end Lexeme

/-- The sum of a count over lines. -/
def total (count : ScannedLine → Nat) : List ScannedLine → Nat
  | [] => 0
  | line :: lines => count line + total count lines

private theorem total_countCode (c : Char) (lines : List ScannedLine) :
    total (fun line => countCode c line.glyphs) lines =
      countCode c (lines.flatMap ScannedLine.glyphs) := by
  induction lines with
  | nil => rfl
  | cons line lines ih =>
    rw [total, ih, List.flatMap_cons]
    exact (List.countP_append ..).symm

private theorem countCode_lexemes {c : Char} (hspace : c ≠ ' ') (hbreak : c ≠ '\n')
    (hquote : isQuote c = false) (lexemes : List Lexeme) :
    countCode c (lexemes.flatMap Lexeme.glyphs) = lexemes.countP (Lexeme.isCode c) := by
  induction lexemes with
  | nil => rfl
  | cons lexeme lexemes ih =>
    have hown := lexeme.countCode_glyphs hspace hbreak hquote
    rw [countCode] at ih hown ⊢
    rw [List.flatMap_cons, List.countP_append, ih, hown, List.countP_cons, Nat.add_comm]

/-- **The line scanner realises its lexical grammar.**  For a lexed text without carriage returns,
scanned line by line from the beginning: the code of all lines is the text without its line feeds
and line comments and with a space for each block comment; in the skeleton the bodies of literals
are blanked byte for byte; braces and parentheses are counted where they are characters of code; and
nothing is open at the end. -/
theorem scanLines_lexemes (lexemes : List Lexeme) (hlexed : IsLexed lexemes)
    (hreturn : '\r' ∉ lexedText lexemes) :
    let scanned := scanLines {} (lexedText lexemes).lines
    scanned.flatMap ScannedLine.code = lexemes.flatMap Lexeme.codeText ∧
      scanned.flatMap ScannedLine.skeleton = lexemes.flatMap Lexeme.skeletonText ∧
      total ScannedLine.openBraces scanned = lexemes.countP (Lexeme.isCode '\x7b') ∧
      total ScannedLine.closeBraces scanned = lexemes.countP (Lexeme.isCode '\x7d') ∧
      total ScannedLine.openParens scanned = lexemes.countP (Lexeme.isCode '(') ∧
      total ScannedLine.closeParens scanned = lexemes.countP (Lexeme.isCode ')') ∧
      stateAfter {} (lexedText lexemes).lines = {} := by
  intro scanned
  have hgather : gather {} (lexedText lexemes).lines = ⟨lexemes.flatMap Lexeme.glyphs, {}⟩ :=
    (gather_lines {} hreturn).trans (scanText_lexedText hlexed)
  have hglyphs : scanned.flatMap ScannedLine.glyphs = lexemes.flatMap Lexeme.glyphs :=
    congrArg ScannedLine.glyphs hgather
  have hcount : ∀ c, c ≠ ' ' → c ≠ '\n' → isQuote c = false →
      total (fun line => countCode c line.glyphs) scanned =
        lexemes.countP (Lexeme.isCode c) := by
    intro c hspace hbreak hquote
    rw [total_countCode, hglyphs, countCode_lexemes hspace hbreak hquote]
  refine ⟨?_, ?_, hcount _ ?_ ?_ ?_, hcount _ ?_ ?_ ?_, hcount _ ?_ ?_ ?_, hcount _ ?_ ?_ ?_,
    congrArg ScannedLine.state hgather⟩
  case refine_1 =>
    -- the code of all lines is the code of their glyphs, and so for the lexemes
    calc scanned.flatMap ScannedLine.code
        = codeOf (scanned.flatMap ScannedLine.glyphs) := List.map_flatMap.symm
      _ = codeOf (lexemes.flatMap Lexeme.glyphs) := by rw [hglyphs]
      _ = lexemes.flatMap fun lexeme => codeOf lexeme.glyphs := List.map_flatMap
      _ = lexemes.flatMap Lexeme.codeText := by simp only [Lexeme.codeOf_glyphs]
  case refine_2 =>
    calc scanned.flatMap ScannedLine.skeleton
        = skeletonOf (scanned.flatMap ScannedLine.glyphs) := List.flatMap_assoc.symm
      _ = skeletonOf (lexemes.flatMap Lexeme.glyphs) := by rw [hglyphs]
      _ = lexemes.flatMap fun lexeme => skeletonOf lexeme.glyphs := List.flatMap_assoc
      _ = lexemes.flatMap Lexeme.skeletonText := by simp only [Lexeme.skeletonOf_glyphs]
  all_goals decide

/-- A character literal with an escaped quote, a comment with a quote and a parenthesis in it, and a
string that is broken behind a backslash, in front of a line comment. -/
def brokenString : List Lexeme :=
  [.code 'f' rfl, .code '(' rfl, .literal '\'' [.escaped '\''] rfl (by decide), .code ')' rfl,
    .code '\x7b' rfl, .blockComment " \" (\n".toList rfl,
    .literal '"' [.plain 'é', .plain '\x7b', .escaped '\n'] rfl (by decide),
    .lineComment " \x7d".toList (by decide), .code '\n' rfl, .code '\x7d' rfl]

theorem scanLines_brokenString :
    let scanned := scanLines {} (Text.lines
      "f('\\'')\x7b/* \" (\n*/\"é\x7b\\\n\"// \x7d\n\x7d".toList)
    scanned.flatMap ScannedLine.code = "f('\\'')\x7b \"é\x7b\\\"\x7d".toList ∧
      scanned.flatMap ScannedLine.skeleton = "f('  ')\x7b \"    \"\x7d".toList ∧
      total ScannedLine.openBraces scanned = 1 ∧ total ScannedLine.openParens scanned = 1 := by
  have hlexed : IsLexed brokenString := by decide
  obtain ⟨hcode, hskeleton, hbraces, -, hparens, -⟩ :=
    scanLines_lexemes brokenString hlexed (by decide)
  exact ⟨hcode, hskeleton, hbraces, hparens⟩

end DeclDocs
