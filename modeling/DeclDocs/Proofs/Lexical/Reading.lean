import DeclDocs.Lexical.Mask
import DeclDocs.Proofs.Text.Spacing

/-!
# Text that the scanner reads piece by piece

The scanner carries a state from one character to the next, and a slash is understood only with
its neighbour.  Text whose literals are closed and that opens no comment leaves the scanner where it
found it: such pieces can be read one after the other.

* `blankLiterals?`: what shows of a text once its literals are blanked.
* `ReadsAs`: the scanner turns the text into the given glyphs, whatever follows it.
* `ReadsAs.maskGlyphs_append`: the mask of a text is put together from the glyphs of its pieces.
-/

namespace DeclDocs

/-! ## §1 Literals and comments of a text -/

/-- A slash or a star: what makes a comment of a slash in front of it. -/
def makesComment (c : Char) : Bool :=
  c == '/' || c == '*'

/-- The text with the contents of its literals blanked, one space for each character, and the quote
of the literal that is still open at its end; `none` when a comment opens outside literals.  At the
start the literal with the given quote is open. -/
def blankLiterals? : (quote : Option Char) → Text → Option (Text × Option Char)
  | quote, [] => some ([], quote)
  | none, c :: cs =>
    if c = '"' ∨ c = '\'' then
      (blankLiterals? (some c) cs).map fun (shown, quote) => (c :: shown, quote)
    else if c = '/' ∧ Text.beginsWith makesComment cs = true then none
    else (blankLiterals? none cs).map fun (shown, quote) => (c :: shown, quote)
  | some quote, '\\' :: _ :: cs =>
    (blankLiterals? (some quote) cs).map fun (shown, quote) => (' ' :: ' ' :: shown, quote)
  | some quote, c :: cs =>
    if c = quote then (blankLiterals? none cs).map fun (shown, quote) => (c :: shown, quote)
    else (blankLiterals? (some quote) cs).map fun (shown, quote) => (' ' :: shown, quote)

/-- No comment opens outside the literals of the text. -/
def isCommentFree (text : Text) : Bool :=
  (blankLiterals? none text).isSome

/-- The text opens no comment, closes its literals, and shows `shown` with their contents
blanked. -/
def Shows (text shown : Text) : Prop :=
  blankLiterals? none text = some (shown, none)

instance (text shown : Text) : Decidable (Shows text shown) :=
  inferInstanceAs (Decidable (_ = _))

/-! ## §2 Steps of the scanner -/

namespace ScannedLine

/-- The line with glyphs put in front of it. -/
def prepend (glyphs : List Glyph) (line : ScannedLine) : ScannedLine :=
  { line with glyphs := glyphs ++ line.glyphs }

@[simp] theorem prepend_nil (line : ScannedLine) : line.prepend [] = line := rfl

theorem push_prepend (glyph : Glyph) (glyphs : List Glyph) (line : ScannedLine) :
    (line.prepend glyphs).push glyph = line.prepend (glyph :: glyphs) := rfl

theorem prepend_prepend (front back : List Glyph) (line : ScannedLine) :
    (line.prepend back).prepend front = line.prepend (front ++ back) := by
  simp [prepend]

end ScannedLine

namespace ScanState

/-- The state inside a literal with the given quote, or outside literals. -/
def ofQuote : Option Char → ScanState
  | none => {}
  | some quote => if quote = '"' then { inString := true } else { inChar := true }

/-- A character that opens neither a literal nor a comment. -/
def isPlain (c : Char) : Bool :=
  c != '"' && c != '\'' && c != '/'

theorem isPlain_of_isBlank {c : Char} (h : isBlank c = true) : isPlain c = true := by
  rw [← Bool.not_eq_false]
  intro hplain
  simp only [isPlain, Bool.and_eq_false_iff, bne_eq_false_iff_eq] at hplain
  rcases hplain with (rfl | rfl) | rfl <;> exact absurd h (by decide)

@[simp] theorem scan_nil (state : ScanState) : state.scan [] = ⟨[], state⟩ := rfl

theorem scan_plain {c : Char} (h : isPlain c = true) (cs : Text) :
    scan {} (c :: cs) = (scan {} cs).push (.code c) := by
  simp only [isPlain, Bool.and_eq_true, bne_iff_ne, ne_eq] at h
  obtain ⟨⟨hstring, hchar⟩, hslash⟩ := h
  conv_lhs => unfold scan
  simp only [Bool.false_eq_true, if_false, Bool.or_self]
  split <;> simp_all

/-- A slash that opens no comment is code. -/
theorem scan_slash {cs : Text} (h : Text.beginsWith makesComment cs = false) :
    scan {} ('/' :: cs) = (scan {} cs).push (.code '/') := by
  conv_lhs => unfold scan
  simp only [Bool.false_eq_true, if_false, Bool.or_self]
  split <;> simp_all [makesComment]

theorem scan_openQuote {quote : Char} (h : quote = '"' ∨ quote = '\'') (cs : Text) :
    scan {} (quote :: cs) = (scan (ofQuote (some quote)) cs).push (.code quote) := by
  conv_lhs => unfold scan
  rcases h with rfl | rfl <;> simp [ofQuote]

/-- Inside a literal. -/
structure InLiteral (state : ScanState) : Prop where
  noComment : state.inBlockComment = false
  literal : (state.inString || state.inChar) = true

theorem eq_default {state : ScanState} (hcomment : ¬state.inBlockComment = true)
    (hliteral : ¬(state.inString || state.inChar) = true) : state = {} := by
  obtain ⟨inBlockComment, inString, inChar⟩ := state
  simp only [Bool.not_eq_true, Bool.or_eq_false_iff] at hcomment hliteral
  obtain ⟨rfl, rfl⟩ := hliteral
  subst hcomment
  rfl

theorem quote_eq (state : ScanState) : state.quote = '"' ∨ state.quote = '\'' := by
  unfold quote
  split
  · exact Or.inl rfl
  · exact Or.inr rfl

theorem ne_quote (state : ScanState) {c : Char} (hstring : c ≠ '"') (hchar : c ≠ '\'') :
    c ≠ state.quote := by
  rcases state.quote_eq with hquote | hquote <;> rwa [hquote]

theorem inLiteral_ofQuote {quote : Char} (h : quote = '"' ∨ quote = '\'') :
    (ofQuote (some quote)).InLiteral ∧ (ofQuote (some quote)).quote = quote := by
  rcases h with rfl | rfl <;> exact ⟨⟨rfl, rfl⟩, rfl⟩

namespace InLiteral

theorem of_not {state : ScanState} (hcomment : ¬state.inBlockComment = true)
    (hliteral : (state.inString || state.inChar) = true) : state.InLiteral :=
  ⟨by simpa using hcomment, hliteral⟩

variable {state : ScanState} (h : state.InLiteral)
include h

theorem scan_escape (c : Char) (cs : Text) : state.scan ('\\' :: c :: cs) =
    ((state.scan cs).push (.literal c)).push (.literal '\\') := by
  conv_lhs => unfold scan
  simp only [h.noComment, h.literal, if_true, if_false, Bool.false_eq_true]

theorem scan_quote (cs : Text) :
    state.scan (state.quote :: cs) = (scan {} cs).push (.code state.quote) := by
  have hquote : state.quote ≠ '\\' := (state.ne_quote (by decide) (by decide)).symm
  conv_lhs => unfold scan
  simp only [h.noComment, h.literal, if_true, if_false, Bool.false_eq_true, hquote]

theorem scan_content {c : Char} (hc : c ≠ state.quote) {cs : Text} (hescape : c = '\\' → cs = []) :
    state.scan (c :: cs) = (state.scan cs).push (.literal c) := by
  conv_lhs => unfold scan
  simp only [h.noComment, h.literal, if_true, if_false, Bool.false_eq_true, hc]
  split
  case isTrue hback =>
    rw [hescape hback]
    rfl
  case isFalse => rfl

end InLiteral

end ScanState

/-! ## §3 Reading pieces -/

theorem codeOf_append (front back : List Glyph) :
    codeOf (front ++ back) = codeOf front ++ codeOf back :=
  List.map_append

@[simp] theorem codeOf_map_code (text : Text) : codeOf (text.map Glyph.code) = text := by
  simp [codeOf, Glyph.code, Function.comp_def]

/-- From inside the literal with the quote `quote` the scanner reads the text as glyphs that show
`shown`, and is then inside the literal with the quote `last`.  A slash at the end may not be made a
comment by what follows, and what follows must not be taken in by an open literal. -/
def ScansTo (quote last : Option Char) (text shown : Text) : Prop :=
  ∃ glyphs, codeOf glyphs = text ∧ glyphs.map Glyph.shown = shown ∧
    ∀ rest, (last = none ∨ rest = []) → Text.beginsWith makesComment rest = false →
      (ScanState.ofQuote quote).scan (text ++ rest) =
        ((ScanState.ofQuote last).scan rest).prepend glyphs

namespace ScansTo

theorem nil (quote : Option Char) : ScansTo quote quote [] [] :=
  ⟨[], rfl, rfl, fun _ _ _ => rfl⟩

/-- A step of the scanner that reads one glyph. -/
theorem push {quote next last : Option Char} {text shown : Text} (glyph : Glyph)
    (h : ScansTo next last text shown)
    (hstep : ∀ rest, (last = none ∨ rest = []) → Text.beginsWith makesComment rest = false →
      (ScanState.ofQuote quote).scan (glyph.char :: (text ++ rest)) =
        ((ScanState.ofQuote next).scan (text ++ rest)).push glyph) :
    ScansTo quote last (glyph.char :: text) (glyph.shown :: shown) := by
  obtain ⟨glyphs, hcode, hshown, hscan⟩ := h
  refine ⟨glyph :: glyphs, ?_, ?_, ?_⟩
  · rw [← hcode]
    rfl
  · rw [← hshown]
    rfl
  · intro rest hlast hrest
    rw [List.cons_append, hstep rest hlast hrest, hscan rest hlast hrest,
      ScannedLine.push_prepend]

end ScansTo

/-- The scanner reads what `blankLiterals?` accepts. -/
theorem scansTo_of_blankLiterals {quote last : Option Char} {text shown : Text}
    (h : blankLiterals? quote text = some (shown, last))
    (hquote : ∀ q ∈ quote, q = '"' ∨ q = '\'') : ScansTo quote last text shown := by
  fun_induction blankLiterals? quote text generalizing shown with
  | case1 quote =>
    simp only [Option.some.injEq, Prod.mk.injEq] at h
    obtain ⟨rfl, rfl⟩ := h
    exact .nil quote
  | case2 c cs hc ih =>
    -- a literal opens
    obtain ⟨⟨shown, _⟩, hcs, heq⟩ := Option.map_eq_some_iff.mp h
    cases heq
    refine .push (.code c) (ih hcs (by simpa using hc)) fun rest _ _ => ?_
    exact ScanState.scan_openQuote hc (cs ++ rest)
  | case3 c cs _ hcomment => simp at h
  | case4 c cs hc hcomment ih =>
    -- a character of code; a slash at the end of the text has its neighbour in `rest`
    obtain ⟨⟨shown, _⟩, hcs, heq⟩ := Option.map_eq_some_iff.mp h
    cases heq
    refine .push (.code c) (ih hcs (by simp)) fun rest _ hrest => ?_
    by_cases hslash : c = '/'
    · subst hslash
      apply ScanState.scan_slash
      cases cs with
      | nil => exact hrest
      | cons d ds => simpa using hcomment
    · apply ScanState.scan_plain
      rw [not_or] at hc
      simp [Glyph.code, ScanState.isPlain, hc, hslash]
  | case5 quote c cs ih =>
    -- a backslash takes the next character with it
    obtain ⟨⟨shown, _⟩, hcs, heq⟩ := Option.map_eq_some_iff.mp h
    cases heq
    obtain ⟨glyphs, hcode, hshown, hscan⟩ := ih hcs hquote
    refine ⟨.literal '\\' :: .literal c :: glyphs, ?_, ?_, ?_⟩
    · rw [← hcode]
      rfl
    · rw [← hshown]
      rfl
    · intro rest hlast hrest
      rw [List.cons_append, List.cons_append,
        (ScanState.inLiteral_ofQuote (hquote quote rfl)).1.scan_escape, hscan rest hlast hrest]
      rfl
  | case6 c cs _ ih =>
    -- the literal closes
    obtain ⟨⟨shown, _⟩, hcs, heq⟩ := Option.map_eq_some_iff.mp h
    cases heq
    refine .push (.code c) (ih hcs (by simp)) fun rest _ _ => ?_
    obtain ⟨hliteral, hclose⟩ := ScanState.inLiteral_ofQuote (hquote c rfl)
    have := hliteral.scan_quote (cs ++ rest)
    rwa [hclose] at this
  | case7 quote c cs hescape hc ih =>
    -- content of the literal
    obtain ⟨⟨shown, _⟩, hcs, heq⟩ := Option.map_eq_some_iff.mp h
    cases heq
    refine .push (.literal c) (ih hcs hquote) fun rest hlast _ => ?_
    obtain ⟨hliteral, hclose⟩ := ScanState.inLiteral_ofQuote (hquote quote rfl)
    refine hliteral.scan_content (by rwa [hclose]) fun hback => ?_
    cases cs with
    | cons d ds => exact (hescape d ds hback rfl).elim
    | nil =>
      -- the literal stays open, so nothing follows
      simp only [blankLiterals?, Option.some.injEq, Prod.mk.injEq] at hcs
      rcases hlast with hnone | hnil
      · simp [← hcs.2] at hnone
      · simpa using hnil

/-- The scanner turns the text into the glyphs, whatever follows, and is then outside literals
again. -/
structure ReadsAs (text : Text) (glyphs : List Glyph) : Prop where
  code : codeOf glyphs = text
  scan : ∀ rest, ScanState.scan {} (text ++ rest) = (ScanState.scan {} rest).prepend glyphs

namespace ReadsAs

theorem nil : ReadsAs [] [] :=
  ⟨rfl, fun _ => rfl⟩

theorem append {a b : Text} {glyphsA glyphsB : List Glyph} (ha : ReadsAs a glyphsA)
    (hb : ReadsAs b glyphsB) : ReadsAs (a ++ b) (glyphsA ++ glyphsB) where
  code := by rw [codeOf_append, ha.code, hb.code]
  scan := by
    intro rest
    rw [List.append_assoc, ha.scan, hb.scan, ScannedLine.prepend_prepend]

/-- Text without quotes and slashes is code throughout. -/
theorem of_plain {text : Text} (h : ∀ c ∈ text, ScanState.isPlain c = true) :
    ReadsAs text (text.map Glyph.code) := by
  induction text with
  | nil => exact .nil
  | cons c cs ih =>
    have hcs := ih fun d hd => h d (List.mem_cons_of_mem _ hd)
    refine ⟨?_, fun rest => ?_⟩
    · rw [List.map_cons, codeOf, List.map_cons, ← codeOf, hcs.code]
      rfl
    · rw [List.cons_append, ScanState.scan_plain (h c (List.mem_cons_self ..)), hcs.scan,
        ScannedLine.push_prepend]
      rfl

/-- Text with closed literals in front of a plain character, such as the closing parenthesis of an
argument list. -/
theorem of_shows {text shown : Text} (h : Shows text shown) {c : Char}
    (hc : ScanState.isPlain c = true) (hstar : c ≠ '*') :
    ∃ glyphs, glyphs.map Glyph.shown = shown ∧
      ReadsAs (text ++ [c]) (glyphs ++ [.code c]) := by
  obtain ⟨glyphs, hcode, hshown, hscan⟩ := scansTo_of_blankLiterals h (by simp)
  refine ⟨glyphs, hshown, ?_, fun rest => ?_⟩
  · rw [← hcode]
    simp [codeOf, Glyph.code]
  · have hquiet : Text.beginsWith makesComment (c :: rest) = false := by
      have hslash : c ≠ '/' := by
        rintro rfl
        exact absurd hc (by decide)
      simp [makesComment, hslash, hstar]
    have hread := hscan (c :: rest) (Or.inl rfl) hquiet
    rw [ScanState.ofQuote, ScanState.scan_plain hc,
      ← ScannedLine.prepend_nil (ScanState.scan {} rest), ScannedLine.push_prepend,
      ScannedLine.prepend_prepend] at hread
    rw [List.append_assoc]
    exact hread

end ReadsAs

/-! ## §4 The mask -/

/-- The sum of the weights of the characters. -/
def Text.weight (weigh : Char → Nat) : Text → Nat
  | [] => 0
  | c :: cs => weigh c + Text.weight weigh cs

/-- Scanning keeps the text or makes it lighter, whatever the characters weigh, as long as a space
is no heavier than the others: only comments are lost. -/
theorem codeOf_scan_eq_or_weight_lt {weigh : Char → Nat} (hspace : weigh ' ' = 1)
    (hpos : ∀ c, 0 < weigh c) (state : ScanState) (text : Text) :
    codeOf (state.scan text).glyphs = text ∨
      Text.weight weigh (codeOf (state.scan text).glyphs) < Text.weight weigh text := by
  -- either way the glyphs are no heavier than the characters
  have hle : ∀ {code cs : Text}, code = cs ∨ Text.weight weigh code < Text.weight weigh cs →
      Text.weight weigh code ≤ Text.weight weigh cs := by
    rintro code cs (rfl | h)
    · exact Nat.le_refl _
    · exact h.le
  -- a step that keeps its character keeps what is known of the rest
  have hpush : ∀ {code cs : Text} (c : Char),
      code = cs ∨ Text.weight weigh code < Text.weight weigh cs →
        c :: code = c :: cs ∨ Text.weight weigh (c :: code) < Text.weight weigh (c :: cs) := by
    rintro code cs c (rfl | h)
    · exact Or.inl rfl
    · exact Or.inr (by simpa [Text.weight] using h)
  fun_induction ScanState.scan state text with
  | case1 state => exact Or.inl rfl
  | case2 state _ rest ih =>
    -- the two characters that close a comment become one glyph
    have hrest := hle ih
    have hstar := hpos '*'
    refine Or.inr ?_
    simp only [ScannedLine.push, Text.weight, codeOf, Glyph.code, List.map_cons, hspace] at hrest ⊢
    have hslash := hpos '/'
    omega
  | case3 state c _ rest _ ih =>
    -- inside a comment
    have hrest := hle ih
    have hc := hpos c
    refine Or.inr ?_
    simp only [Text.weight] at hrest ⊢
    omega
  | case4 => exact Or.inl rfl
  | case5 state _ _ escaped rest ih => exact hpush _ (hpush escaped ih)
  | case6 state cs _ _ _ ih => exact hpush _ ih
  | case7 state c cs _ _ _ _ ih => exact hpush c ih
  | case8 state _ _ tail =>
    have hslash := hpos '/'
    refine Or.inr ?_
    simp only [Text.weight, codeOf, List.map_nil]
    omega
  | case9 state _ _ rest ih =>
    -- the two characters that open a comment are lost
    have hrest := hle ih
    have hslash := hpos '/'
    refine Or.inr ?_
    simp only [Text.weight] at hrest ⊢
    omega
  | case10 state _ _ rest ih => exact hpush _ ih
  | case11 state _ _ rest ih => exact hpush _ ih
  | case12 state _ _ c rest _ _ _ _ ih => exact hpush c ih

/-- Scanning keeps the text or makes it shorter. -/
theorem codeOf_scan_eq_or_length_lt (state : ScanState) (text : Text) :
    codeOf (state.scan text).glyphs = text ∨ (state.scan text).glyphs.length < text.length := by
  have hlength : ∀ text : Text, Text.weight (fun _ => 1) text = text.length := by
    intro text
    induction text with
    | nil => rfl
    | cons c cs ih => rw [Text.weight, ih, List.length_cons, Nat.add_comm]
  have hscan := @codeOf_scan_eq_or_weight_lt (fun _ => 1) rfl (fun _ => Nat.one_pos) state text
  rw [hlength, hlength] at hscan
  simpa [codeOf] using hscan

/-- The mask has one glyph for each character of the text. -/
theorem codeOf_maskGlyphs (text : Text) : codeOf (maskGlyphs text) = text := by
  unfold maskGlyphs
  dsimp only
  split
  case isTrue hlen =>
    -- of the two cases of the scan only the first has this length
    rcases codeOf_scan_eq_or_length_lt {} text with h | h
    · exact h
    · exact absurd hlen (Nat.ne_of_lt h)
  case isFalse => exact codeOf_map_code text

theorem length_maskGlyphs (text : Text) : (maskGlyphs text).length = text.length := by
  conv_rhs => rw [← codeOf_maskGlyphs text]
  simp [codeOf]

/-- The scanner loses nothing of the text. -/
def ScannedWhole (text : Text) : Prop :=
  (scanLine text).glyphs.length = text.length

theorem ScannedWhole.maskGlyphs_eq {text : Text} (h : ScannedWhole text) :
    maskGlyphs text = (scanLine text).glyphs :=
  if_pos h

theorem ScannedWhole.of_commentFree {text : Text} (h : isCommentFree text = true) :
    ScannedWhole text := by
  obtain ⟨⟨shown, last⟩, hblank⟩ := Option.isSome_iff_exists.mp h
  obtain ⟨glyphs, hcode, _, hscan⟩ := scansTo_of_blankLiterals hblank (by simp)
  have hread := hscan [] (Or.inr rfl) rfl
  rw [List.append_nil, ScanState.scan_nil] at hread
  change scanLine text = _ at hread
  rw [ScannedWhole, hread, ← hcode]
  simp [ScannedLine.prepend, codeOf]

namespace ReadsAs

variable {text rest : Text} {glyphs : List Glyph}

theorem scanLine_append (h : ReadsAs text glyphs) (hrest : ScannedWhole rest) :
    (scanLine (text ++ rest)).glyphs = glyphs ++ maskGlyphs rest := by
  rw [hrest.maskGlyphs_eq, scanLine, h.scan]
  rfl

theorem scannedWhole_append (h : ReadsAs text glyphs) (hrest : ScannedWhole rest) :
    ScannedWhole (text ++ rest) := by
  rw [ScannedWhole, h.scanLine_append hrest, List.length_append, List.length_append,
    length_maskGlyphs, ← h.code]
  simp [codeOf]

/-- The mask of a text is put together from the glyphs of its pieces. -/
theorem maskGlyphs_append (h : ReadsAs text glyphs) (hrest : ScannedWhole rest) :
    maskGlyphs (text ++ rest) = glyphs ++ maskGlyphs rest := by
  rw [(h.scannedWhole_append hrest).maskGlyphs_eq, h.scanLine_append hrest]

theorem scannedWhole (h : ReadsAs text glyphs) : ScannedWhole text := by
  have hnil : ScannedWhole [] := rfl
  simpa using h.scannedWhole_append hnil

theorem maskGlyphs_eq (h : ReadsAs text glyphs) : maskGlyphs text = glyphs := by
  have hnil : ScannedWhole [] := rfl
  have hmask : maskGlyphs [] = [] := rfl
  simpa [hmask] using h.maskGlyphs_append hnil

end ReadsAs

/-- Text without quotes and slashes is code in the mask, and the mask of what follows is the same
without it: where that holds a comment, nothing is masked either way. -/
theorem maskGlyphs_plain {text : Text} (h : ∀ c ∈ text, ScanState.isPlain c = true) (rest : Text) :
    maskGlyphs (text ++ rest) = text.map Glyph.code ++ maskGlyphs rest := by
  have hscan : (scanLine (text ++ rest)).glyphs =
      text.map Glyph.code ++ (scanLine rest).glyphs := by
    rw [scanLine, (ReadsAs.of_plain h).scan]
    rfl
  unfold maskGlyphs
  simp only [hscan, List.length_append, List.length_map, Nat.add_left_cancel_iff]
  split
  case isTrue => rfl
  case isFalse => exact List.map_append

/-- In front of anything at all, text without quotes and slashes is code in the mask. -/
theorem maskGlyphs_plain_append {text : Text} (h : ∀ c ∈ text, ScanState.isPlain c = true)
    (rest : Text) :
    ∃ glyphs, maskGlyphs (text ++ rest) = text.map Glyph.code ++ glyphs ∧
      codeOf glyphs = rest :=
  ⟨maskGlyphs rest, maskGlyphs_plain h rest, codeOf_maskGlyphs rest⟩

/-- Only the character itself shows a character that is not blank. -/
theorem Glyph.shown_eq_iff {glyph : Glyph} {c : Char} (hc : c ≠ ' ') :
    glyph.shown = c ↔ glyph = .code c := by
  obtain ⟨char, masked⟩ := glyph
  cases masked with
  | true => simp [Glyph.shown, Glyph.code, hc.symm]
  | false => simp [Glyph.shown, Glyph.code]

end DeclDocs
