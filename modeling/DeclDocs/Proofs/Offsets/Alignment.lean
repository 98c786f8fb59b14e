import DeclDocs.Proofs.Lexical.Rewording
import DeclDocs.Proofs.Offsets.Masks

/-!
# Code, skeleton and mask byte by byte

The skeleton of a scanned line has the bytes of its code, with a space in the place of every byte of
a literal's content, from whatever state the line is scanned.  A delimiter that is found in the
skeleton is therefore one of the code.  The mask of a text is its skeleton as long as the code has
the length of the text, and that is so exactly if no comment opens in it: whatever a comment leaves
is shorter than the comment.

* `contentBytes`, `utf8_skeletonOf_parts`: the bytes of content, and the skeleton as the code with
  these bytes blanked.
* `holdsAt_of_byte`: delimiters of the skeleton are delimiters of the code.
* `ScanState.OpensComment`, `ScanState.opensComment_cons`: a comment opens somewhere in the text,
  taken one character at a time.
* `ScanState.code_scan_eq_iff`, `byteLength_code_eq_iff`: the scanner keeps a text, or its length,
  exactly if no comment opens.
* `scan_literalMask_aligned`: all of it for scanned lines and masks.
-/

namespace DeclDocs

open Text (beginsWith)

/-! ## §1 Bytes of content -/

/-- Content of a literal; a backslash and what it escapes belong to it. -/
def CharClass.isContent : CharClass → Bool
  | .content | .escape => true
  | .code | .comment | .commentEnd => false

/-- How many bytes the character leaves in the code. -/
def ClassedChar.size (part : ClassedChar) : Nat :=
  (part.glyph?.map fun glyph => glyph.char.utf8Size).getD 0

/-- For each byte that the characters leave in the code, whether it belongs to content of a
literal. -/
def contentBytes (parts : List ClassedChar) : List Bool :=
  parts.flatMap fun part => List.replicate part.size part.kind.isContent

/-- The byte, or a space in the place of content. -/
def blankByte (content : Bool) (byte : UInt8) : UInt8 :=
  if content then ' '.toUInt8 else byte

private theorem zipWith_replicate_eq_map {α β γ : Type} (f : α → β → γ) (a : α) (items : List β) :
    List.zipWith f (List.replicate items.length a) items = items.map (f a) := by
  induction items with
  | nil => rfl
  | cons b items ih =>
    rw [List.length_cons, List.replicate_succ, List.zipWith_cons_cons, ih, List.map_cons]

/-- The bytes of a glyph in the skeleton are those of its character, blanked in content. -/
theorem Glyph.bytes_eq_map (g : Glyph) :
    g.bytes = (String.utf8EncodeChar g.char).map (blankByte g.masked) := by
  rw [bytes, skeletonPart]
  split
  case isTrue hmasked =>
    have hblank : blankByte true = fun _ => ' '.toUInt8 := rfl
    rw [Text.utf8_spaces, hmasked, hblank, List.map_const', String.length_utf8EncodeChar]
  case isFalse hcode =>
    have hmasked : g.masked = false := by simpa using hcode
    have hkeep : blankByte false = id := rfl
    rw [hmasked, hkeep, List.map_id, Text.utf8_cons]
    exact List.append_nil _

/-- Characters of content leave masked glyphs, and no others do. -/
theorem ClassedChar.masked_eq {part : ClassedChar} {g : Glyph} (h : part.glyph? = some g) :
    g.masked = part.kind.isContent := by
  obtain ⟨c, kind⟩ := part
  cases kind with
  | comment => cases h
  | code | content | escape | commentEnd =>
    obtain rfl := Option.some.inj h
    rfl

/-- **The skeleton is the code with the bytes of content blanked.** -/
theorem utf8_skeletonOf_parts (parts : List ClassedChar) :
    (contentBytes parts).length = (codeOf (parts.filterMap ClassedChar.glyph?)).byteLength ∧
      (skeletonOf (parts.filterMap ClassedChar.glyph?)).utf8 =
        List.zipWith blankByte (contentBytes parts)
          (codeOf (parts.filterMap ClassedChar.glyph?)).utf8 := by
  induction parts with
  | nil => exact ⟨rfl, rfl⟩
  | cons part parts ih =>
    obtain ⟨hlength, hbytes⟩ := ih
    have hcons : contentBytes (part :: parts) =
        List.replicate part.size part.kind.isContent ++ contentBytes parts := List.flatMap_cons
    rw [hcons, ClassedChar.size]
    cases hglyph : part.glyph? with
    | none =>
      rw [List.filterMap_cons_none hglyph]
      exact ⟨hlength, hbytes⟩
    | some g =>
      rw [List.filterMap_cons_some hglyph, codeOf_cons, Option.map_some, Option.getD_some]
      constructor
      · rw [List.length_append, List.length_replicate, hlength, Text.byteLength_cons]
      · -- the glyph has as many bytes in the skeleton as in the code
        have hsize : (List.replicate g.char.utf8Size part.kind.isContent).length =
            (String.utf8EncodeChar g.char).length := by
          rw [List.length_replicate, String.length_utf8EncodeChar]
        rw [utf8_skeletonOf_cons, Text.utf8_cons, List.zipWith_append hsize, ← hbytes,
          g.bytes_eq_map, ← zipWith_replicate_eq_map, String.length_utf8EncodeChar,
          ClassedChar.masked_eq hglyph]

/-- Each byte of the skeleton is that of the code, or a space for one of content. -/
theorem getElem?_utf8_skeletonOf_parts (parts : List ClassedChar) {i : Nat}
    (hi : i < (codeOf (parts.filterMap ClassedChar.glyph?)).byteLength) :
    let code := codeOf (parts.filterMap ClassedChar.glyph?)
    let skeleton := skeletonOf (parts.filterMap ClassedChar.glyph?)
    (contentBytes parts)[i]? = some false ∧ skeleton.utf8[i]? = code.utf8[i]? ∨
      (contentBytes parts)[i]? = some true ∧ skeleton.utf8[i]? = some ' '.toUInt8 := by
  intro code skeleton
  obtain ⟨hlength, hbytes⟩ := utf8_skeletonOf_parts parts
  have hcontent := List.getElem?_eq_getElem (hlength ▸ hi : i < (contentBytes parts).length)
  have hcode := List.getElem?_eq_getElem (hi : i < code.utf8.length)
  have hskeleton : skeleton.utf8[i]? =
      some (blankByte (contentBytes parts)[i] code.utf8[i]) := by
    rw [hbytes, List.getElem?_zipWith, hcontent, hcode]
  rw [hskeleton, hcode, hcontent]
  cases (contentBytes parts)[i] with
  | false => exact Or.inl ⟨rfl, rfl⟩
  | true => exact Or.inr ⟨rfl, rfl⟩

/-! ## §2 Delimiters -/

/-- The character `c` stands at a byte offset of the text, which is a character boundary. -/
def Text.HoldsAt (text : Text) (offset : Nat) (c : Char) : Prop :=
  ∃ front rest, Text.cutAt offset text = .ok (front, c :: rest)

theorem Text.holdsAt_iff {text : Text} {offset : Nat} {c : Char} :
    text.HoldsAt offset c ↔
      ∃ front rest, text = front ++ c :: rest ∧ offset = front.byteLength :=
  exists_congr fun _ => exists_congr fun _ => Text.cutAt_eq_ok_iff

/-- The byte of a delimiter in the skeleton is that of a glyph. -/
theorem exists_glyph_of_byte {c : Char} (hc : isDelimiter c = true) {gs : List Glyph} {i : Nat}
    (h : (skeletonOf gs).utf8[i]? = some c.toUInt8) :
    ∃ front rest, gs = front ++ .code c :: rest ∧ i = (codeOf front).byteLength := by
  induction gs generalizing i with
  | nil => simp [skeletonOf, Text.utf8] at h
  | cons g gs ih =>
    rw [utf8_skeletonOf_cons] at h
    by_cases hi : i < g.bytes.length
    · rw [List.getElem?_append_left hi] at h
      have hshown : g.shown = c := by
        by_contra hne
        exact Glyph.ne_of_mem_bytes hc hne (List.mem_of_getElem? h) rfl
      obtain ⟨rfl, hbytes⟩ := Glyph.bytes_of_shown hc hshown
      rw [hbytes, List.length_singleton] at hi
      exact ⟨[], gs, rfl, by simpa [codeOf] using hi⟩
    · rw [List.getElem?_append_right (Nat.le_of_not_lt hi)] at h
      obtain ⟨front, rest, rfl, hoffset⟩ := ih h
      refine ⟨g :: front, rest, rfl, ?_⟩
      rw [codeOf_cons, Text.byteLength_cons, ← g.length_bytes]
      omega

/-- **A delimiter of the skeleton is the same character of the code**, at the same offset. -/
theorem holdsAt_of_byte {c : Char} (hc : isDelimiter c = true) {gs : List Glyph} {i : Nat}
    (h : (skeletonOf gs).utf8[i]? = some c.toUInt8) :
    (skeletonOf gs).HoldsAt i c ∧ (codeOf gs).HoldsAt i c := by
  obtain ⟨front, rest, rfl, rfl⟩ := exists_glyph_of_byte hc h
  rw [codeOf_append, skeletonOf_append, skeletonOf_cons, Text.holdsAt_iff, Text.holdsAt_iff]
  refine ⟨⟨skeletonOf front, skeletonOf rest, rfl, ?_⟩, codeOf front, codeOf rest, rfl, rfl⟩
  rw [byteLength_skeletonOf]

/-- Brackets, commas and quotes are delimiters. -/
example : "()[]\x7b\x7d<>,\"'".toList.all isDelimiter = true := by decide

section Counts

variable {c : Char} (hc : c ≠ ' ')

include hc

/-- A character is counted where the scanner takes it for code. -/
theorem countCode_parts (parts : List ClassedChar) :
    countCode c (parts.filterMap ClassedChar.glyph?) = parts.count ⟨c, .code⟩ := by
  rw [countCode, List.countP_filterMap, List.count]
  apply List.countP_congr
  rintro ⟨d, kind⟩ -
  cases kind <;> simp [ClassedChar.glyph?, Glyph.shown, Glyph.code, Glyph.literal, hc.symm]

end Counts

/-! ## §3 Where a comment opens -/

theorem ScannedLine.code_push_eq_iff {line : ScannedLine} {glyph : Glyph} {rest : Text} :
    (line.push glyph).code = glyph.char :: rest ↔ line.code = rest :=
  List.cons_inj_right glyph.char

namespace ScanState

open ScannedLine (code_push_eq_iff)

/-- Somewhere in the text, where nothing is open, two characters open a comment. -/
def OpensComment (state : ScanState) (text : Text) : Prop :=
  ∃ front rest, text = front ++ '/' :: rest ∧ beginsWith makesComment rest = true ∧
    (state.scan front).state = {}

variable {state next : ScanState} {c : Char} {rest : Text}

theorem not_opensComment_nil (state : ScanState) : ¬ state.OpensComment [] := by
  rintro ⟨front, rest, htext, -⟩
  simp at htext

/-- Behind a character that opens no comment itself. -/
theorem opensComment_cons
    (hopen : state = {} → c = '/' → beginsWith makesComment rest = false)
    (hstep : ∀ front, front <+: rest → (state.scan (c :: front)).state = (next.scan front).state) :
    state.OpensComment (c :: rest) ↔ next.OpensComment rest := by
  constructor
  · rintro ⟨front, back, htext, hback, hstate⟩
    cases front with
    | nil =>
      obtain ⟨rfl, rfl⟩ := List.cons.inj htext
      simp [hopen hstate rfl] at hback
    | cons d front =>
      obtain ⟨rfl, rfl⟩ := List.cons.inj htext
      exact ⟨front, back, rfl, hback, (hstep front (List.prefix_append ..)).symm.trans hstate⟩
  · rintro ⟨front, back, rfl, hback, hstate⟩
    exact ⟨c :: front, back, rfl, hback, (hstep front (List.prefix_append ..)).trans hstate⟩

private theorem InLiteral.ne_default (h : state.InLiteral) : state ≠ {} := by
  rintro rfl
  exact absurd h.literal (by decide)

/-- Behind a backslash and the character that it takes with it. -/
theorem InLiteral.opensComment_escape (h : state.InLiteral) :
    state.OpensComment ('\\' :: c :: rest) ↔ state.OpensComment rest := by
  constructor
  · rintro ⟨front, back, htext, hback, hstate⟩
    -- the literal is open in front of both characters
    rcases front with _ | ⟨d, _ | ⟨e, front⟩⟩
    · exact absurd hstate h.ne_default
    · obtain ⟨rfl, -⟩ := List.cons.inj htext
      rw [h.scan_escapeEnd] at hstate
      exact absurd hstate h.ne_default
    · obtain ⟨rfl, htail⟩ := List.cons.inj htext
      obtain ⟨rfl, rfl⟩ := List.cons.inj htail
      rw [h.scan_escape] at hstate
      exact ⟨front, back, rfl, hback, hstate⟩
  · rintro ⟨front, back, rfl, hback, hstate⟩
    refine ⟨'\\' :: c :: front, back, rfl, hback, ?_⟩
    rw [h.scan_escape]
    exact hstate

/-- **Outside comments the scanner keeps all of a text exactly if no comment opens in it.** -/
theorem code_scan_eq_iff (h : state.inBlockComment = false) (text : Text) :
    (state.scan text).code = text ↔ ¬ state.OpensComment text := by
  -- one case for each step of the scanner: only those that open a comment lose characters
  induction state, text using line_induction with
  | nil state => exact iff_of_true rfl state.not_opensComment_nil
  | commentClose state rest hcomment => simp [h] at hcomment
  | commentStep state c rest hcomment => simp [h] at hcomment
  | escapeEnd state hinside =>
    have hstep : state.OpensComment ['\\'] ↔ state.OpensComment [] := by
      refine opensComment_cons (fun hstate => absurd hstate hinside.ne_default) ?_
      intro front hfront
      obtain rfl := List.prefix_nil.mp hfront
      rw [hinside.scan_escapeEnd, scan_nil]
    rw [hinside.scan_escapeEnd, hstep]
    exact iff_of_true rfl state.not_opensComment_nil
  | escape state c rest hinside ih =>
    rw [hinside.scan_escape, hinside.opensComment_escape, ← ih h]
    exact code_push_eq_iff.trans code_push_eq_iff
  | closeQuote state rest hinside ih =>
    have hstep : state.OpensComment (state.quote :: rest) ↔ OpensComment {} rest := by
      refine opensComment_cons (fun hstate => absurd hstate hinside.ne_default) ?_
      intro front _
      rw [hinside.scan_quote]
      rfl
    rw [hinside.scan_quote, hstep, ← ih rfl]
    exact code_push_eq_iff
  | content state c rest hinside hescape hquote ih =>
    have hscan : ∀ cs, state.scan (c :: cs) = (state.scan cs).push (.literal c) :=
      fun cs => hinside.scan_content hquote fun hback => absurd hback hescape
    have hstep : state.OpensComment (c :: rest) ↔ state.OpensComment rest := by
      refine opensComment_cons (fun hstate => absurd hstate hinside.ne_default) ?_
      intro front _
      rw [hscan]
      rfl
    rw [hscan, hstep, ← ih h]
    exact code_push_eq_iff
  | lineComment rest =>
    have hnone : (scan {} ('/' :: '/' :: rest)).code = [] := rfl
    rw [hnone]
    exact iff_of_false (by simp) (not_not.mpr ⟨[], '/' :: rest, rfl, rfl, rfl⟩)
  | blockComment rest =>
    refine iff_of_false ?_ (not_not.mpr ⟨[], '*' :: rest, rfl, rfl, rfl⟩)
    -- no more is left than stands behind the two characters that open the comment
    intro hcode
    change codeOf (comment.scan rest).glyphs = '/' :: '*' :: rest at hcode
    have hlength := congrArg List.length hcode
    rcases codeOf_scan_eq_or_length_lt comment rest with hsame | hless
    · rw [hsame, List.length_cons, List.length_cons] at hlength
      omega
    · rw [codeOf, List.length_map, List.length_cons, List.length_cons] at hlength
      omega
  | openQuote quote rest hquote ih =>
    have hslash : quote ≠ '/' := by rcases hquote with rfl | rfl <;> decide
    have hstep : OpensComment {} (quote :: rest) ↔ (ofQuote (some quote)).OpensComment rest := by
      refine opensComment_cons (fun _ hc => absurd hc hslash) ?_
      intro front _
      rw [scan_openQuote hquote]
      rfl
    rw [scan_openQuote hquote, hstep, ← ih (inLiteral_ofQuote hquote).1.noComment]
    exact code_push_eq_iff
  | code c rest hquote hslash ih =>
    have hstep : OpensComment {} (c :: rest) ↔ OpensComment {} rest := by
      refine opensComment_cons (fun _ => hslash) ?_
      intro front hfront
      rw [scan_code hquote fun hc => beginsWith_of_isPrefix hfront (hslash hc)]
      rfl
    rw [scan_code hquote hslash, hstep, ← ih rfl]
    exact code_push_eq_iff

end ScanState

/-! ## §4 The mask -/

/-- Somewhere outside the literals of the text a comment opens. -/
def OpensComment (text : Text) : Prop :=
  ScanState.OpensComment {} text

/-- **No comment leaves the length as it is**: the code has as many bytes as the text exactly if no
comment opens. -/
theorem byteLength_code_eq_iff (text : Text) :
    (scanLine text).code.byteLength = text.byteLength ↔ ¬ OpensComment text := by
  have hscan := codeOf_scan_eq_or_weight_lt rfl Char.utf8Size_pos {} text
  rw [← Text.byteLength_eq_weight, ← Text.byteLength_eq_weight] at hscan
  have hcode : (scanLine text).code.byteLength = text.byteLength ↔ (scanLine text).code = text :=
    ⟨fun hlength => hscan.resolve_right (Nat.not_lt_of_le hlength.ge), congrArg Text.byteLength⟩
  exact hcode.trans (ScanState.code_scan_eq_iff rfl text)

theorem literalMask_of_not_opensComment {text : Text} (h : ¬ OpensComment text) :
    literalMask text = (scanLine text).skeleton :=
  (Offsets.literalMask_eq text).symm.trans (if_pos ((byteLength_code_eq_iff text).mpr h))

theorem literalMask_of_opensComment {text : Text} (h : OpensComment text) :
    literalMask text = text :=
  (Offsets.literalMask_eq text).symm.trans
    (if_neg fun hlength => (byteLength_code_eq_iff text).mp hlength h)

theorem literalMask_eq_skeleton_iff (text : Text) :
    literalMask text = (scanLine text).skeleton ↔ ¬ OpensComment text := by
  refine ⟨fun hmask hopens => ?_, literalMask_of_not_opensComment⟩
  -- the skeleton has the bytes of the code, and the text has more
  rw [literalMask_of_opensComment hopens] at hmask
  have hlength : (scanLine text).code.byteLength = text.byteLength := by
    rw [ScannedLine.code, ← byteLength_skeletonOf, ← ScannedLine.skeleton, ← hmask]
  exact (byteLength_code_eq_iff text).mp hlength hopens

theorem byteLength_literalMask (text : Text) : (literalMask text).byteLength = text.byteLength := by
  rw [literalMask, byteLength_skeletonOf, codeOf_maskGlyphs]

/-! ## §5 Scanned lines and masks -/

/-- **Code and skeleton are aligned, and the mask gives way exactly to comments.**  From any state,
the code and the skeleton of a line have the same number of bytes; a byte of the skeleton is that of
the code, or a space where it belongs to content of a literal; a delimiter at an offset of the
skeleton is the same character at that boundary of the code; and the counts of braces and
parentheses are those of the skeleton, where a delimiter stands as often as the scanner takes it for
code.  The mask of a text has as many bytes as the text; it is the skeleton exactly if no comment
opens in the text, and otherwise it is the text itself. -/
theorem scan_literalMask_aligned (state : ScanState) (line text : Text) :
    let scanned := state.scan line
    let parts := (state.classify line).parts
    scanned.skeleton.byteLength = scanned.code.byteLength ∧
      (∀ i < scanned.code.byteLength,
        (contentBytes parts)[i]? = some false ∧
            scanned.skeleton.utf8[i]? = scanned.code.utf8[i]? ∨
          (contentBytes parts)[i]? = some true ∧
            scanned.skeleton.utf8[i]? = some ' '.toUInt8) ∧
      (∀ (c : Char) (i : Nat), isDelimiter c = true → scanned.skeleton.utf8[i]? = some c.toUInt8 →
        scanned.skeleton.HoldsAt i c ∧ scanned.code.HoldsAt i c) ∧
      scanned.openBraces = scanned.skeleton.count '\x7b' ∧
      scanned.closeBraces = scanned.skeleton.count '\x7d' ∧
      scanned.openParens = scanned.skeleton.count '(' ∧
      scanned.closeParens = scanned.skeleton.count ')' ∧
      (∀ c, isDelimiter c = true → scanned.skeleton.count c = parts.count ⟨c, .code⟩) ∧
      (literalMask text).byteLength = text.byteLength ∧
      (literalMask text = (scanLine text).skeleton ↔ ¬ OpensComment text) ∧
      (OpensComment text → literalMask text = text) := by
  intro scanned parts
  have hglyphs : scanned.glyphs = parts.filterMap ClassedChar.glyph? :=
    congrArg ScannedLine.glyphs (state.scan_eq_classify line)
  have hcount : ∀ c, c ≠ ' ' → countCode c scanned.glyphs = scanned.skeleton.count c :=
    fun c hc => (count_skeletonOf hc scanned.glyphs).symm
  refine ⟨byteLength_skeletonOf _, ?_, fun c i hc h => holdsAt_of_byte hc h,
    hcount _ (by decide), hcount _ (by decide), hcount _ (by decide), hcount _ (by decide), ?_,
    byteLength_literalMask text, literalMask_eq_skeleton_iff text, literalMask_of_opensComment⟩
  · intro i hi
    rw [ScannedLine.code, hglyphs] at hi ⊢
    rw [ScannedLine.skeleton, hglyphs]
    exact getElem?_utf8_skeletonOf_parts parts hi
  · intro c hc
    have hspace : c ≠ ' ' := by
      rw [isDelimiter, Bool.and_eq_true, bne_iff_ne] at hc
      exact hc.2
    rw [← hcount c hspace, hglyphs, countCode_parts hspace]

/-- A line that begins with both literals open and ends behind a backslash. -/
def openQuotesLine : Text :=
  "é(\" \x7b '\\"

/-- The closing quote ends both literals, and the brace behind it is code at its own offset; signs of
comments in literals keep the mask, and a comment takes it away. -/
theorem scan_literalMask_aligned_openQuotes :
    let scanned := ScanState.scan ⟨false, true, true⟩ openQuotesLine
    scanned.skeleton.byteLength = scanned.code.byteLength ∧
      scanned.skeleton.utf8[2]? = some ' '.toUInt8 ∧ scanned.code.HoldsAt 5 '\x7b' ∧
      scanned.openBraces = scanned.skeleton.count '\x7b' ∧
      ¬ OpensComment "'/' / \"/*\"" ∧ literalMask "int a /* c */" = "int a /* c */".toList := by
  intro scanned
  obtain ⟨hlength, hbytes, hdelimiter, hbraces, -, -, -, -, -, hmask, -⟩ :=
    scan_literalMask_aligned ⟨false, true, true⟩ openQuotesLine "'/' / \"/*\""
  obtain ⟨-, -, -, -, -, -, -, -, -, -, hcomment⟩ :=
    scan_literalMask_aligned {} [] "int a /* c */"
  have hbrace : scanned.skeleton.utf8[5]? = some '\x7b'.toUInt8 := by decide +kernel
  have hopens : OpensComment "int a /* c */" :=
    ⟨"int a ".toList, "* c */".toList, by decide, by decide, by decide +kernel⟩
  refine ⟨hlength, ?_, (hdelimiter _ 5 (by decide) hbrace).2, hbraces,
    hmask.mp (by decide +kernel), hcomment hopens⟩
  exact ((hbytes 2 (by decide +kernel)).resolve_left fun h => absurd h.1 (by decide +kernel)).2

end DeclDocs
