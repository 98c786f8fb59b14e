import DeclDocs.Proofs.Lexical.Reading
import DeclDocs.Proofs.Offsets.Bytes

/-!
# Offsets found in a mask

Delimiters are found in the skeleton of a text, which has a space for every byte of a literal's
content, and the text itself is cut at the offsets found.  Text and skeleton come from the same
glyphs, and the two parts of a glyph have the same number of bytes: an offset between two glyphs is
a character boundary of both.

* `byteLength_skeletonOf`: skeleton and code are aligned.
* `Glyph.bytes_of_shown`, `Glyph.ne_of_mem_bytes`: a delimiter is one byte, and no other glyph has
  that byte.
* `Offsets.literalMask_eq`, `Offsets.findCode_eq`, `Offsets.matchingClose_eq`,
  `Offsets.closingParen_eq`, `Offsets.splitTopLevel_eq`: searches and cuts by offset, and what they
  are on glyphs.
-/

namespace DeclDocs

/-! ## §1 Aligned texts -/

theorem Text.byteLength_eq_weight (text : Text) :
    text.byteLength = Text.weight Char.utf8Size text := by
  induction text with
  | nil => rfl
  | cons c cs ih =>
    rw [Text.byteLength_cons, ih]
    rfl

theorem Text.utf8_spaces (n : Nat) :
    Text.utf8 (List.replicate n ' ') = List.replicate n ' '.toUInt8 := by
  induction n with
  | zero => rfl
  | succ n ih =>
    rw [List.replicate_succ, Text.utf8_cons, ih, List.replicate_succ]
    rfl

theorem skeletonOf_append (front back : List Glyph) :
    skeletonOf (front ++ back) = skeletonOf front ++ skeletonOf back :=
  List.flatMap_append

theorem codeOf_cons (g : Glyph) (gs : List Glyph) : codeOf (g :: gs) = g.char :: codeOf gs :=
  rfl

namespace Glyph

@[simp] theorem skeletonPart_code (c : Char) : (code c).skeletonPart = [c] := rfl

private theorem byteLength_skeletonPart (g : Glyph) :
    g.skeletonPart.byteLength = g.char.utf8Size := by
  rw [skeletonPart]
  split
  · rw [Text.byteLength, Text.utf8_spaces, List.length_replicate]
  · simp

/-- A glyph appears in the skeleton as what it shows. -/
theorem eq_shown_of_mem {g : Glyph} {c : Char} (h : c ∈ g.skeletonPart) : c = g.shown := by
  rw [skeletonPart] at h
  rw [shown]
  split at h
  · rw [if_pos ‹_›]
    exact List.eq_of_mem_replicate h
  · rw [if_neg ‹_›]
    exact List.mem_singleton.mp h

end Glyph

/-- **Skeleton and code are aligned**, so that an offset between two glyphs is one of both. -/
theorem byteLength_skeletonOf (gs : List Glyph) :
    (skeletonOf gs).byteLength = (codeOf gs).byteLength := by
  induction gs with
  | nil => rfl
  | cons g gs ih =>
    rw [skeletonOf_cons, Text.byteLength_append, g.byteLength_skeletonPart, ih, codeOf_cons,
      Text.byteLength_cons]

/-! ## §2 Delimiters -/

/-- A character that no byte of another glyph is mistaken for: one of ASCII, and not the space that
stands for the contents of literals. -/
def isDelimiter (c : Char) : Bool :=
  c.val ≤ 127 && c != ' '

namespace Glyph

/-- The bytes of a glyph in the skeleton. -/
def bytes (g : Glyph) : List UInt8 := g.skeletonPart.utf8

theorem length_bytes (g : Glyph) : g.bytes.length = g.char.utf8Size :=
  g.byteLength_skeletonPart

private theorem toUInt8_inj {c d : Char} (hc : c.val ≤ 127) (hd : d.val ≤ 127)
    (h : c.toUInt8 = d.toUInt8) : c = d := by
  have hc' : c.val.toNat ≤ 127 := hc
  have hd' : d.val.toNat ≤ 127 := hd
  have hnat : c.val.toNat % 256 = d.val.toNat % 256 := congrArg UInt8.toNat h
  apply Char.ext
  apply UInt32.toNat_inj.mp
  omega

variable {g : Glyph} {c : Char} (hc : isDelimiter c = true)
include hc

/-- A delimiter is one byte. -/
theorem bytes_of_shown (h : g.shown = c) : g = .code c ∧ g.bytes = [c.toUInt8] := by
  rw [isDelimiter, Bool.and_eq_true, decide_eq_true_eq, bne_iff_ne] at hc
  obtain rfl := (shown_eq_iff hc.2).mp h
  refine ⟨rfl, ?_⟩
  rw [bytes, skeletonPart_code, Text.utf8_cons, Text.utf8EncodeChar_ascii hc.1]
  rfl

/-- No byte of another glyph is that of a delimiter. -/
theorem ne_of_mem_bytes (h : g.shown ≠ c) {byte : UInt8} (hbyte : byte ∈ g.bytes) :
    byte ≠ c.toUInt8 := by
  rw [isDelimiter, Bool.and_eq_true, decide_eq_true_eq] at hc
  obtain ⟨d, hd, hmem⟩ := List.mem_flatMap.mp hbyte
  have hne : d ≠ c := by
    rw [eq_shown_of_mem hd]
    exact h
  rintro rfl
  by_cases hascii : d.val ≤ 127
  · rw [Text.utf8EncodeChar_ascii hascii, List.mem_singleton] at hmem
    exact hne (toUInt8_inj hascii hc.1 hmem.symm)
  · have hlt := Text.lt_of_mem_utf8EncodeChar hascii hmem
    have hval : c.val.toNat ≤ 127 := hc.1
    have hnat : c.toUInt8.toNat = c.val.toNat % 256 := rfl
    omega

end Glyph

theorem utf8_skeletonOf_cons (g : Glyph) (gs : List Glyph) :
    (skeletonOf (g :: gs)).utf8 = g.bytes ++ (skeletonOf gs).utf8 := by
  rw [skeletonOf_cons, Text.utf8_append]
  rfl

namespace Offsets

/-! ## §3 The mask and its characters -/

/-- The text with the contents of its literals blanked, or the text itself when the scan made it
shorter. -/
def literalMask (text : Text) : Text :=
  let scanned := scanLine text
  if scanned.code.byteLength = text.byteLength then scanned.skeleton else text

/-- The byte offset of the first `c` outside literals. -/
def findCode (text : Text) (c : Char) : Option Nat :=
  (literalMask text).findByte (· == c)

theorem literalMask_eq (text : Text) : literalMask text = skeletonOf (maskGlyphs text) := by
  have hcode : skeletonOf (text.map Glyph.code) = text := by
    rw [skeletonOf, List.flatMap_map]
    exact List.flatMap_singleton' text
  have hscan := codeOf_scan_eq_or_weight_lt rfl Char.utf8Size_pos {} text
  rw [← Text.byteLength_eq_weight, ← Text.byteLength_eq_weight] at hscan
  have hshort := codeOf_scan_eq_or_length_lt {} text
  unfold literalMask maskGlyphs
  dsimp only
  by_cases hsame : codeOf (scanLine text).glyphs = text
  · have hlength : (scanLine text).glyphs.length = text.length := by
      conv_rhs => rw [← hsame]
      simp [codeOf]
    rw [if_pos (by rw [ScannedLine.code, hsame]), if_pos hlength]
    rfl
  · -- with a comment gone there are fewer characters and fewer bytes
    have hbytes : (scanLine text).code.byteLength < text.byteLength := hscan.resolve_left hsame
    have hlength : (scanLine text).glyphs.length < text.length := hshort.resolve_left hsame
    rw [if_neg (Nat.ne_of_lt hbytes), if_neg (Nat.ne_of_lt hlength), hcode]

end Offsets

private theorem Text.findByte_front {p : Char → Bool} {front : Text} (h : ∀ c ∈ front, p c = false)
    (rest : Text) :
    (front ++ rest).findByte p = (rest.findByte p).map (front.byteLength + ·) := by
  induction front with
  | nil =>
    cases h : Text.findByte p rest <;> simp [h]
  | cons c front ih =>
    have hc : p c = false := h c (List.mem_cons_self ..)
    rw [List.cons_append, findByte, hc, ih fun d hd => h d (List.mem_cons_of_mem _ hd),
      byteLength_cons]
    cases Text.findByte p rest <;> simp [Nat.add_assoc]

/-- The first `c` of the skeleton is the first glyph that shows it. -/
theorem findByte_skeletonOf {c : Char} (hc : c ≠ ' ') (gs : List Glyph) :
    (skeletonOf gs).findByte (· == c) =
      (cutGlyphs? c gs).map fun (before, _) => (codeOf before).byteLength := by
  induction gs with
  | nil => rfl
  | cons g gs ih =>
    rw [skeletonOf_cons, cutGlyphs?]
    split
    case isTrue h =>
      obtain rfl := (Glyph.shown_eq_iff hc).mp h
      simp [Text.findByte, codeOf]
    case isFalse h =>
      have hskip : ∀ d ∈ g.skeletonPart, (d == c) = false := fun d hd => by
        rw [Glyph.eq_shown_of_mem hd]
        exact beq_eq_false_iff_ne.mpr h
      rw [Text.findByte_front hskip, ih, g.byteLength_skeletonPart]
      cases cutGlyphs? c gs with
      | none => rfl
      | some parts => simp [codeOf_cons]

/-- The glyphs around the first one that shows `c`. -/
theorem cutGlyphs?_eq_some {c : Char} (hc : c ≠ ' ') {gs before rest : List Glyph}
    (h : cutGlyphs? c gs = some (before, rest)) : gs = before ++ .code c :: rest := by
  induction gs generalizing before with
  | nil => cases h
  | cons g gs ih =>
    rw [cutGlyphs?] at h
    split at h
    case isTrue hshown =>
      obtain ⟨rfl, rfl⟩ := Prod.mk.inj (Option.some.inj h)
      rw [(Glyph.shown_eq_iff hc).mp hshown, List.nil_append]
    case isFalse =>
      obtain ⟨⟨front, found⟩, hcut, heq⟩ := Option.map_eq_some_iff.mp h
      obtain ⟨rfl, rfl⟩ := Prod.mk.inj heq
      rw [ih hcut, List.cons_append]

namespace Offsets

theorem findCode_eq {c : Char} (hc : c ≠ ' ') (text : Text) :
    findCode text c =
      (cutGlyphs? c (maskGlyphs text)).map fun (before, _) => (codeOf before).byteLength := by
  rw [findCode, literalMask_eq, findByte_skeletonOf hc]

/-! ## §4 The end of a group -/

/-- Looks for the byte that closes a group.  `depth` groups are open, and `index` is the offset of
the first byte. -/
def closeFrom (opening closing : Char) : (depth index : Nat) → List UInt8 → Checked (Option Nat)
  | _, _, [] => pure none
  | depth, index, byte :: bytes =>
    if byte = opening.toUInt8 then closeFrom opening closing (depth + 1) (index + 1) bytes
    else if byte = closing.toUInt8 then do
      let depth ← Checked.minus depth 1
      if depth = 0 then pure (some index) else closeFrom opening closing depth (index + 1) bytes
    else closeFrom opening closing depth (index + 1) bytes

/-- The byte offset of the delimiter that closes the one at `openAt`; there is none when another
byte stands there or when the group does not close. -/
def matchingClose (text : Text) (openAt : Nat) (opening closing : Char) : Checked (Option Nat) :=
  let bytes := (literalMask text).utf8
  if bytes[openAt]? = some opening.toUInt8 then
    closeFrom opening closing 0 openAt (bytes.drop openAt)
  else pure none

section Group

variable {opening closing : Char} (hopening : isDelimiter opening = true)
  (hclosing : isDelimiter closing = true)

theorem untilClose_opening {g : Glyph} (h : g.shown = opening) (nested : Nat) (gs : List Glyph) :
    untilClose opening closing nested (g :: gs) =
      (untilClose opening closing (nested + 1) gs).map fun (inside, rest) => (g :: inside, rest) := by
  rw [untilClose.eq_def]
  exact if_pos h

theorem untilClose_last {g : Glyph} (hopen : g.shown ≠ opening) (hclose : g.shown = closing)
    (gs : List Glyph) : untilClose opening closing 0 (g :: gs) = some ([], gs) := by
  rw [untilClose, if_neg hopen, if_pos hclose]

theorem untilClose_closing {g : Glyph} (hopen : g.shown ≠ opening) (hclose : g.shown = closing)
    (outer : Nat) (gs : List Glyph) :
    untilClose opening closing (outer + 1) (g :: gs) =
      (untilClose opening closing outer gs).map fun (inside, rest) => (g :: inside, rest) := by
  rw [untilClose, if_neg hopen, if_pos hclose]

theorem untilClose_other {g : Glyph} (hopen : g.shown ≠ opening) (hclose : g.shown ≠ closing)
    (nested : Nat) (gs : List Glyph) :
    untilClose opening closing nested (g :: gs) =
      (untilClose opening closing nested gs).map fun (inside, rest) => (g :: inside, rest) := by
  rw [untilClose.eq_def]
  exact (if_neg hopen).trans (if_neg hclose)

/-- The glyphs around the one that closes a group. -/
theorem untilClose_eq_some (hclosing : closing ≠ ' ') {nested : Nat}
    {gs inside rest : List Glyph} (h : untilClose opening closing nested gs = some (inside, rest)) :
    gs = inside ++ .code closing :: rest := by
  induction gs generalizing nested inside with
  | nil => cases h
  | cons g gs ih =>
    -- a glyph inside the group stands in front of what is inside behind it
    have hkeep : ∀ {depth : Nat},
        (untilClose opening closing depth gs).map (fun (inside, rest) => (g :: inside, rest)) =
          some (inside, rest) → g :: gs = inside ++ .code closing :: rest := by
      intro depth hmap
      obtain ⟨⟨front, found⟩, hclose, heq⟩ := Option.map_eq_some_iff.mp hmap
      obtain ⟨rfl, rfl⟩ := Prod.mk.inj heq
      rw [ih hclose, List.cons_append]
    by_cases hopen : g.shown = opening
    · rw [untilClose_opening hopen] at h
      exact hkeep h
    · by_cases hclose : g.shown = closing
      · cases nested with
        | zero =>
          rw [untilClose_last hopen hclose] at h
          obtain ⟨rfl, rfl⟩ := Prod.mk.inj (Option.some.inj h)
          rw [(Glyph.shown_eq_iff hclosing).mp hclose, List.nil_append]
        | succ outer =>
          rw [untilClose_closing hopen hclose] at h
          exact hkeep h
      · rw [untilClose_other hopen hclose] at h
        exact hkeep h

/-- The text around the delimiter that closes a group. -/
theorem codeOf_untilClose (hclosing : closing ≠ ' ') {nested : Nat} {gs inside rest : List Glyph}
    (h : untilClose opening closing nested gs = some (inside, rest)) :
    codeOf gs = codeOf inside ++ closing :: codeOf rest := by
  rw [untilClose_eq_some hclosing h, codeOf_append]
  rfl

private theorem closeFrom_skip {skipped : List UInt8}
    (h : ∀ byte ∈ skipped, byte ≠ opening.toUInt8 ∧ byte ≠ closing.toUInt8) (depth index : Nat)
    (bytes : List UInt8) :
    closeFrom opening closing depth index (skipped ++ bytes) =
      closeFrom opening closing depth (index + skipped.length) bytes := by
  induction skipped generalizing index with
  | nil => rfl
  | cons byte skipped ih =>
    obtain ⟨hopen, hclose⟩ := h byte (List.mem_cons_self ..)
    rw [List.cons_append, closeFrom, if_neg hopen, if_neg hclose,
      ih fun b hb => h b (List.mem_cons_of_mem _ hb), List.length_cons]
    congr 1
    omega

include hopening hclosing

/-- Inside a group, where at least one delimiter is open, the depth does not fall below zero, and
the group ends at the glyph that closes it. -/
theorem closeFrom_skeletonOf (nested index : Nat) (gs : List Glyph) :
    closeFrom opening closing (nested + 1) index (skeletonOf gs).utf8 =
      pure ((untilClose opening closing nested gs).map fun (inside, _) =>
        index + (codeOf inside).byteLength) := by
  induction gs generalizing nested index with
  | nil => rfl
  | cons g gs ih =>
    rw [utf8_skeletonOf_cons]
    have hlength := g.length_bytes
    by_cases hopen : g.shown = opening
    · -- a group inside opens
      have hbytes := (Glyph.bytes_of_shown hopening hopen).2
      rw [hbytes, List.length_singleton] at hlength
      rw [hbytes, List.singleton_append, closeFrom, if_pos rfl, ih, untilClose_opening hopen]
      cases untilClose opening closing (nested + 1) gs with
      | none => rfl
      | some parts => simp [codeOf_cons, ← hlength, Nat.add_assoc]
    · by_cases hclose : g.shown = closing
      · -- the delimiter that closes takes one away from a depth of at least one
        have hbytes := (Glyph.bytes_of_shown hclosing hclose).2
        have hother : closing.toUInt8 ≠ opening.toUInt8 :=
          Glyph.ne_of_mem_bytes hopening hopen (by rw [hbytes]; exact List.mem_cons_self ..)
        rw [hbytes, List.length_singleton] at hlength
        rw [hbytes, List.singleton_append, closeFrom, if_neg hother, if_pos rfl,
          Checked.minus_add, pure_bind]
        cases nested with
        | zero =>
          rw [untilClose_last hopen hclose]
          rfl
        | succ outer =>
          rw [if_neg (Nat.succ_ne_zero outer), ih, untilClose_closing hopen hclose]
          cases untilClose opening closing outer gs with
          | none => rfl
          | some parts => simp [codeOf_cons, ← hlength, Nat.add_assoc]
      · -- no byte of another glyph is taken for a delimiter
        have hskip : ∀ byte ∈ g.bytes, byte ≠ opening.toUInt8 ∧ byte ≠ closing.toUInt8 :=
          fun byte hbyte =>
            ⟨Glyph.ne_of_mem_bytes hopening hopen hbyte, Glyph.ne_of_mem_bytes hclosing hclose hbyte⟩
        rw [closeFrom_skip hskip, ih, untilClose_other hopen hclose, hlength]
        cases untilClose opening closing nested gs with
        | none => rfl
        | some parts => simp [codeOf_cons, Nat.add_assoc]

theorem matchingClose_eq {text : Text} {front rest : List Glyph}
    (hmask : maskGlyphs text = front ++ .code opening :: rest) :
    matchingClose text (codeOf front).byteLength opening closing =
      pure ((untilClose opening closing 0 rest).map fun (inside, _) =>
        (codeOf front).byteLength + 1 + (codeOf inside).byteLength) := by
  have hbytes : (literalMask text).utf8 =
      (skeletonOf front).utf8 ++ opening.toUInt8 :: (skeletonOf rest).utf8 := by
    rw [literalMask_eq, hmask, skeletonOf, List.flatMap_append, Text.utf8_append]
    have hone := (Glyph.bytes_of_shown hopening (rfl : (Glyph.code opening).shown = opening)).2
    have hrest := utf8_skeletonOf_cons (.code opening) rest
    rw [hone] at hrest
    exact congrArg _ hrest
  have hat : (codeOf front).byteLength = (skeletonOf front).utf8.length :=
    (byteLength_skeletonOf front).symm
  rw [matchingClose, hbytes, hat]
  dsimp only
  rw [List.getElem?_append_right (Nat.le_refl _), Nat.sub_self, List.getElem?_cons_zero,
    if_pos rfl, List.drop_left, closeFrom, if_pos rfl,
    closeFrom_skeletonOf hopening hclosing 0]

end Group

/-! ## §5 Parentheses of a gap -/

/-- The byte offset of the `)` that closes the last of `depth` open parentheses. -/
def closingParen : (depth : Int) → (index : Nat) → List UInt8 → Option Nat
  | _, _, [] => none
  | depth, index, byte :: bytes =>
    if byte = '('.toUInt8 then closingParen (depth + 1) (index + 1) bytes
    else if byte = ')'.toUInt8 then
      if depth - 1 = 0 then some index else closingParen (depth - 1) (index + 1) bytes
    else closingParen depth (index + 1) bytes

/-- What a byte adds to the number of open parentheses. -/
def parenWeight (byte : UInt8) : Int :=
  if byte = '('.toUInt8 then 1 else if byte = ')'.toUInt8 then -1 else 0

/-- Parentheses opened less parentheses closed. -/
def parenBalance : List UInt8 → Int
  | [] => 0
  | byte :: bytes => parenWeight byte + parenBalance bytes

/-- From a positive depth both searches for the end of a group find the same. -/
theorem closeFrom_eq_closingParen (nested index : Nat) (bytes : List UInt8) :
    closeFrom '(' ')' (nested + 1) index bytes = pure (closingParen (nested + 1) index bytes) := by
  induction bytes generalizing nested index with
  | nil => rfl
  | cons byte bytes ih =>
    rw [closeFrom, closingParen]
    split
    · exact ih (nested + 1) (index + 1)
    · split
      · rw [Checked.minus_add, pure_bind, Int.add_sub_cancel]
        cases nested with
        | zero => rfl
        | succ outer =>
          rw [if_neg (Nat.succ_ne_zero outer), if_neg (by omega), ih]
          rfl
      · exact ih nested (index + 1)

theorem closingParen_eq (nested index : Nat) (gs : List Glyph) :
    closingParen (nested + 1) index (skeletonOf gs).utf8 =
      (untilClose '(' ')' nested gs).map fun (inside, _) => index + (codeOf inside).byteLength := by
  have hclose := closeFrom_skeletonOf (by decide : isDelimiter '(' = true)
    (by decide : isDelimiter ')' = true) nested index gs
  rw [closeFrom_eq_closingParen] at hclose
  exact Except.ok.inj hclose

theorem parenBalance_append (front back : List UInt8) :
    parenBalance (front ++ back) = parenBalance front + parenBalance back := by
  induction front with
  | nil => exact (Int.zero_add _).symm
  | cons byte front ih => rw [List.cons_append, parenBalance, ih, parenBalance, Int.add_assoc]

theorem parenBalance_eq_zero {bytes : List UInt8}
    (h : ∀ byte ∈ bytes, byte ≠ '('.toUInt8 ∧ byte ≠ ')'.toUInt8) : parenBalance bytes = 0 := by
  induction bytes with
  | nil => rfl
  | cons byte bytes ih =>
    obtain ⟨hopen, hclose⟩ := h byte (List.mem_cons_self ..)
    have hweight : parenWeight byte = 0 := by rw [parenWeight, if_neg hopen, if_neg hclose]
    rw [parenBalance, hweight, ih fun b hb => h b (List.mem_cons_of_mem _ hb), Int.zero_add]

theorem parenBalance_eq (gs : List Glyph) :
    parenBalance (skeletonOf gs).utf8 = countCode '(' gs - countCode ')' gs := by
  induction gs with
  | nil => rfl
  | cons g gs ih =>
    rw [utf8_skeletonOf_cons, parenBalance_append, ih]
    simp only [countCode, List.countP_cons, beq_iff_eq]
    by_cases hopen : g.shown = '('
    · have hbalance : parenBalance g.bytes = 1 := by
        rw [(Glyph.bytes_of_shown (by decide) hopen).2]
        rfl
      rw [hbalance, hopen, if_pos rfl, if_neg (by decide)]
      omega
    · by_cases hclose : g.shown = ')'
      · have hbalance : parenBalance g.bytes = -1 := by
          rw [(Glyph.bytes_of_shown (by decide) hclose).2]
          rfl
        rw [hbalance, hclose, if_neg (by decide), if_pos rfl]
        omega
      · have hbalance : parenBalance g.bytes = 0 :=
          parenBalance_eq_zero fun byte hbyte =>
            ⟨Glyph.ne_of_mem_bytes (by decide) hopen hbyte,
              Glyph.ne_of_mem_bytes (by decide) hclose hbyte⟩
        rw [hbalance, if_neg hopen, if_neg hclose]
        omega

/-! ## §6 Pieces between commas -/

/-- Cuts the text at the commas outside brackets.  `depth` brackets are open, the piece at hand
begins at `start`, and `index` is the offset of the first byte. -/
def splitFrom (text : Text) : (depth start index : Nat) → List UInt8 → Checked (List Text)
  | _, start, _, [] => do
    let piece ← text.fromByte start
    pure [piece.trim]
  | depth, start, index, byte :: bytes =>
    if byte = '<'.toUInt8 ∨ byte = '('.toUInt8 then
      splitFrom text (depth + 1) start (index + 1) bytes
    else if byte = '>'.toUInt8 ∨ byte = ')'.toUInt8 then
      splitFrom text (depth - 1) start (index + 1) bytes
    else if byte = ','.toUInt8 ∧ depth = 0 then do
      let piece ← text.slice start index
      let pieces ← splitFrom text depth (index + 1) (index + 1) bytes
      pure (piece.trim :: pieces)
    else splitFrom text depth start (index + 1) bytes

/-- The trimmed, non-empty pieces of the text between commas outside literals and brackets. -/
def splitTopLevel (text : Text) : Checked (List Text) := do
  let pieces ← splitFrom text 0 0 0 (literalMask text).utf8
  pure (pieces.filter fun piece => !piece.isEmpty)

private theorem splitFrom_skip {text : Text} {depth : Nat} {skipped : List UInt8}
    (h : ∀ byte ∈ skipped, ¬ (byte = '<'.toUInt8 ∨ byte = '('.toUInt8) ∧
      ¬ (byte = '>'.toUInt8 ∨ byte = ')'.toUInt8) ∧ ¬ (byte = ','.toUInt8 ∧ depth = 0))
    (start index : Nat) (bytes : List UInt8) :
    splitFrom text depth start index (skipped ++ bytes) =
      splitFrom text depth start (index + skipped.length) bytes := by
  induction skipped generalizing index with
  | nil => rfl
  | cons byte skipped ih =>
    obtain ⟨hopen, hclose, hcomma⟩ := h byte (List.mem_cons_self ..)
    rw [List.cons_append, splitFrom, if_neg hopen, if_neg hclose, if_neg hcomma,
      ih fun b hb => h b (List.mem_cons_of_mem _ hb), List.length_cons]
    congr 1
    omega

/-- The depth behind a glyph that is no comma between pieces. -/
def depthAfter (depth : Nat) (c : Char) : Nat :=
  if c = '<' ∨ c = '(' then depth + 1
  else if c = '>' ∨ c = ')' then depth - 1
  else depth

private theorem splitCommas_keep {depth : Nat} {g : Glyph} (hcomma : ¬ (g.shown = ',' ∧ depth = 0))
    {gs first : List Glyph} {others : List (List Glyph)}
    (h : splitCommas (depthAfter depth g.shown) gs = first :: others) :
    splitCommas depth (g :: gs) = (g :: first) :: others := by
  rw [splitCommas]
  dsimp only
  rw [if_neg hcomma]
  rw [depthAfter] at h
  rw [h]

/-- A glyph that is no comma between pieces is passed over. -/
theorem splitFrom_keep {depth : Nat} {g : Glyph} (hcomma : ¬ (g.shown = ',' ∧ depth = 0))
    (text : Text) (start index : Nat) (bytes : List UInt8) :
    splitFrom text depth start index (g.bytes ++ bytes) =
      splitFrom text (depthAfter depth g.shown) start (index + g.bytes.length) bytes := by
  rw [depthAfter]
  by_cases hopen : g.shown = '<' ∨ g.shown = '('
  · have hbytes : g.bytes = [g.shown.toUInt8] := by
      rcases hopen with h | h <;> exact h ▸ (Glyph.bytes_of_shown (by decide) h).2
    have hbyte : g.shown.toUInt8 = '<'.toUInt8 ∨ g.shown.toUInt8 = '('.toUInt8 :=
      hopen.imp (congrArg _) (congrArg _)
    rw [hbytes, List.singleton_append, splitFrom, if_pos hbyte, if_pos hopen]
    rfl
  · by_cases hclose : g.shown = '>' ∨ g.shown = ')'
    · have hbytes : g.bytes = [g.shown.toUInt8] := by
        rcases hclose with h | h <;> exact h ▸ (Glyph.bytes_of_shown (by decide) h).2
      have hbyte : g.shown.toUInt8 = '>'.toUInt8 ∨ g.shown.toUInt8 = ')'.toUInt8 :=
        hclose.imp (congrArg _) (congrArg _)
      have hother : ¬ (g.shown.toUInt8 = '<'.toUInt8 ∨ g.shown.toUInt8 = '('.toUInt8) := by
        rcases hclose with h | h <;> rw [h] <;> decide
      rw [hbytes, List.singleton_append, splitFrom, if_neg hother, if_pos hbyte, if_neg hopen,
        if_pos hclose]
      rfl
    · rw [if_neg hopen, if_neg hclose]
      refine splitFrom_skip (fun byte hbyte => ?_) start index bytes
      rw [not_or] at hopen hclose ⊢
      rw [not_or]
      have hne : ∀ {c : Char}, isDelimiter c = true → g.shown ≠ c → byte ≠ c.toUInt8 :=
        fun hc h => Glyph.ne_of_mem_bytes hc h hbyte
      refine ⟨⟨hne (by decide) hopen.1, hne (by decide) hopen.2⟩,
        ⟨hne (by decide) hclose.1, hne (by decide) hclose.2⟩, fun h => ?_⟩
      exact hne (by decide) (fun hshown => hcomma ⟨hshown, h.2⟩) h.1

/-- The pieces that are cut off are those between the glyphs of commas.  In front of the glyphs
stand the pieces that are `done` and what has been read of the `piece` at hand. -/
theorem splitFrom_skeletonOf (depth : Nat) (done piece : Text) (gs : List Glyph) :
    ∃ first others, splitCommas depth gs = first :: others ∧
      splitFrom (done ++ piece ++ codeOf gs) depth done.byteLength (done ++ piece).byteLength
          (skeletonOf gs).utf8 =
        pure ((piece ++ codeOf first).trim :: others.map fun other => (codeOf other).trim) := by
  induction gs generalizing depth done piece with
  | nil =>
    refine ⟨[], [], rfl, ?_⟩
    have hrest : done ++ piece ++ codeOf [] = done ++ (piece ++ codeOf []) :=
      List.append_assoc ..
    have hbytes : (skeletonOf []).utf8 = [] := rfl
    rw [hbytes, splitFrom, hrest, Text.fromByte_append, pure_bind]
    rfl
  | cons g gs ih =>
    rw [utf8_skeletonOf_cons]
    by_cases hcomma : g.shown = ',' ∧ depth = 0
    · -- the piece ends here, and the next one begins behind the comma
      obtain ⟨rfl, hbytes⟩ := Glyph.bytes_of_shown (by decide) hcomma.1
      obtain ⟨first, others, hsplit, hread⟩ := ih 0 (done ++ piece ++ [',']) []
      refine ⟨[], first :: others, ?_, ?_⟩
      · rw [splitCommas, if_pos hcomma, hcomma.2, hsplit]
      · have hslice := Text.slice_append done piece (codeOf (.code ',' :: gs))
        have htext : done ++ piece ++ codeOf (.code ',' :: gs) =
            done ++ piece ++ [','] ++ [] ++ codeOf gs := by
          simp [codeOf_cons, Glyph.code]
        have hindex : (done ++ piece ++ [',']).byteLength = (done ++ piece).byteLength + 1 :=
          Text.byteLength_append ..
        rw [List.append_nil, hindex] at hread
        rw [hbytes, List.singleton_append, splitFrom, if_neg (by decide), if_neg (by decide),
          if_pos ⟨rfl, hcomma.2⟩, hslice, pure_bind, hcomma.2, htext, List.append_nil, hread]
        simp [codeOf]
    · obtain ⟨first, others, hsplit, hread⟩ :=
        ih (depthAfter depth g.shown) done (piece ++ [g.char])
      refine ⟨g :: first, others, splitCommas_keep hcomma hsplit, ?_⟩
      have htext : done ++ piece ++ codeOf (g :: gs) =
          done ++ (piece ++ [g.char]) ++ codeOf gs := by
        simp [codeOf_cons]
      have hindex : (done ++ piece).byteLength + g.bytes.length =
          (done ++ (piece ++ [g.char])).byteLength := by
        simp [g.length_bytes, Nat.add_assoc]
      rw [splitFrom_keep hcomma, htext, hindex, hread]
      simp [codeOf_cons]

theorem splitTopLevel_eq (text : Text) :
    splitTopLevel text = pure (DeclDocs.splitTopLevel text) := by
  obtain ⟨first, others, hsplit, hread⟩ := splitFrom_skeletonOf 0 [] [] (maskGlyphs text)
  rw [codeOf_maskGlyphs] at hread
  have hread' : splitFrom text 0 0 0 (literalMask text).utf8 =
      pure ((codeOf first).trim :: others.map fun other => (codeOf other).trim) := by
    rw [literalMask_eq]
    exact hread
  rw [splitTopLevel, hread', pure_bind, DeclDocs.splitTopLevel, hsplit]
  rfl

end Offsets

end DeclDocs
