import DeclDocs.Proofs.Lexical.Reading
import DeclDocs.Proofs.Text.Marks

/-!
# Spaces of code

At a space outside literals and comments the scanner has nothing pending: it reads what stands in
front of the space and what follows it independently of each other.  A block comment in the place of
the space is read as a space as well, unless the slash that opens it follows another slash.

* `ScanState.line_induction`: the scanner's way through a line.
* `ScanState.scan_comment_of_cut`: the scanner inside a block comment.
* `IsCodeSpace`: the scanner reads a space behind the given text as code.
* `IsCodeSpace.scan_append`: the text in front of such a space and what follows it.
* `IsCodeSpace.scan_blockComment`: a block comment in the place of the space.
-/

namespace DeclDocs

open Text (beginsWith)

/-! ## §1 The way through a line -/

/-- A quote of a string or of a character literal. -/
def isQuote (c : Char) : Bool :=
  c == '"' || c == '\''

/-- Inside a block comment. -/
def ScanState.comment : ScanState := { inBlockComment := true }

namespace ScanState

theorem scan_comment_close {state : ScanState} (h : state.inBlockComment = true) (cs : Text) :
    state.scan ('*' :: '/' :: cs) =
      (scan { state with inBlockComment := false } cs).push (.code ' ') := by
  conv_lhs => unfold scan
  simp only [h, if_true]

theorem scan_comment_step {state : ScanState} (h : state.inBlockComment = true) {c : Char}
    {cs : Text} (hopen : c = '*' → beginsWith (· == '/') cs = false) :
    state.scan (c :: cs) = state.scan cs := by
  conv_lhs => unfold scan
  simp only [h, if_true]
  split
  case h_1 => simp at hopen
  case h_2 => rfl

/-- A character that opens neither a literal nor a comment is code. -/
theorem scan_code {c : Char} {cs : Text} (hquote : isQuote c = false)
    (hslash : c = '/' → beginsWith makesComment cs = false) :
    scan {} (c :: cs) = (scan {} cs).push (.code c) := by
  by_cases hc : c = '/'
  · subst hc
    exact scan_slash (hslash rfl)
  · apply scan_plain
    simp only [isQuote, Bool.or_eq_false_iff, beq_eq_false_iff_ne] at hquote
    simp only [isPlain, Bool.and_eq_true, bne_iff_ne]
    exact ⟨hquote, hc⟩

/-- A backslash at the end of a line escapes nothing. -/
theorem InLiteral.scan_escapeEnd {state : ScanState} (h : state.InLiteral) :
    state.scan ['\\'] = ⟨[.literal '\\'], state⟩ :=
  h.scan_content (state.ne_quote (by decide) (by decide)) fun _ => rfl

/-- What holds of a line follows from what holds of the part that the scanner has still to read, in
the state that it reads it in. -/
@[elab_as_elim]
theorem line_induction {motive : ScanState → Text → Prop} (nil : ∀ state, motive state [])
    (commentClose : ∀ state rest, state.inBlockComment = true →
      motive { state with inBlockComment := false } rest → motive state ('*' :: '/' :: rest))
    (commentStep : ∀ state c rest, state.inBlockComment = true →
      (c = '*' → beginsWith (· == '/') rest = false) → motive state rest → motive state (c :: rest))
    (escapeEnd : ∀ state, state.InLiteral → motive state ['\\'])
    (escape : ∀ state c rest, state.InLiteral → motive state rest →
      motive state ('\\' :: c :: rest))
    (closeQuote : ∀ state rest, state.InLiteral → motive {} rest →
      motive state (state.quote :: rest))
    (content : ∀ state c rest, state.InLiteral → c ≠ '\\' → c ≠ state.quote →
      motive state rest → motive state (c :: rest))
    (lineComment : ∀ rest, motive {} ('/' :: '/' :: rest))
    (blockComment : ∀ rest, motive comment rest → motive {} ('/' :: '*' :: rest))
    (openQuote : ∀ quote rest, quote = '"' ∨ quote = '\'' → motive (ofQuote (some quote)) rest →
      motive {} (quote :: rest))
    (code : ∀ c rest, isQuote c = false → (c = '/' → beginsWith makesComment rest = false) →
      motive {} rest → motive {} (c :: rest))
    (state : ScanState) (line : Text) : motive state line := by
  fun_induction scan state line with
  | case1 state => exact nil state
  | case2 state hcomment rest ih => exact commentClose state rest hcomment ih
  | case3 state c hcomment rest hclose ih =>
    refine commentStep state c rest hcomment (fun hstar => ?_) ih
    cases rest with
    | nil => rfl
    | cons d rest =>
      rw [Text.beginsWith_cons, beq_eq_false_iff_ne]
      rintro rfl
      exact hclose rest hstar rfl
  | case4 state hcomment hliteral => exact escapeEnd state (.of_not hcomment hliteral)
  | case5 state hcomment hliteral c rest ih =>
    exact escape state c rest (.of_not hcomment hliteral) ih
  | case6 state rest hcomment hliteral _ ih =>
    have hinside : state.InLiteral := .of_not hcomment hliteral
    rw [hinside.noComment] at ih
    exact closeQuote state rest hinside ih
  | case7 state c rest hcomment hliteral hescape hquote ih =>
    exact content state c rest (.of_not hcomment hliteral) hescape hquote ih
  | case8 state hcomment hliteral rest =>
    obtain rfl := eq_default hcomment hliteral
    exact lineComment rest
  | case9 state hcomment hliteral rest ih =>
    obtain rfl := eq_default hcomment hliteral
    exact blockComment rest ih
  | case10 state hcomment hliteral rest ih =>
    obtain rfl := eq_default hcomment hliteral
    exact openQuote '"' rest (Or.inl rfl) ih
  | case11 state hcomment hliteral rest ih =>
    obtain rfl := eq_default hcomment hliteral
    exact openQuote '\'' rest (Or.inr rfl) ih
  | case12 state hcomment hliteral c rest hline hblock hstring hchar ih =>
    obtain rfl := eq_default hcomment hliteral
    refine code c rest ?_ ?_ ih
    · simp only [isQuote, Bool.or_eq_false_iff, beq_eq_false_iff_ne]
      exact ⟨hstring, hchar⟩
    · intro hslash
      cases rest with
      | nil => rfl
      | cons d rest =>
        simp only [Text.beginsWith_cons, makesComment, Bool.or_eq_false_iff, beq_eq_false_iff_ne]
        exact ⟨fun hd => hline rest hslash (by rw [hd]), fun hd => hblock rest hslash (by rw [hd])⟩

/-! ## §2 Inside a block comment -/

/-- A comment goes on where no `*/` begins. -/
theorem scan_comment_of_after? {c : Char} {cs : Text}
    (h : Text.after? (c :: cs) "*/" = none) : comment.scan (c :: cs) = comment.scan cs := by
  refine scan_comment_step rfl ?_
  rintro rfl
  rw [← Bool.not_eq_true]
  intro hslash
  cases cs with
  | nil => simp at hslash
  | cons d ds =>
    rw [Text.beginsWith_cons, beq_iff_eq] at hslash
    subst hslash
    simp [Text.after?] at h

theorem scan_comment_of_not_has {text : Text} (h : text.has "*/" = false) :
    comment.scan text = ⟨[], comment⟩ := by
  induction text with
  | nil => rfl
  | cons c cs ih =>
    rw [Text.has_cons, Bool.or_eq_false_iff] at h
    rw [scan_comment_of_after? (by simpa [Text.startsWith] using h.1), ih h.2]

/-- The first `*/` ends a comment. -/
theorem scan_comment_of_cut {text inside rest : Text} (h : text.cut? "*/" = some (inside, rest)) :
    comment.scan text = (scan {} rest).push (.code ' ') := by
  induction text generalizing inside with
  | nil =>
    have hnone : Text.cut? [] "*/" = none := by decide
    rw [hnone] at h
    cases h
  | cons c cs ih =>
    rw [Text.cut?_cons] at h
    cases hafter : Text.after? (c :: cs) "*/" with
    | some found =>
      rw [hafter] at h
      cases h
      rw [Text.after?_eq_some_iff.mp hafter]
      rfl
    | none =>
      rw [hafter] at h
      obtain ⟨⟨front, found⟩, hcut, heq⟩ := Option.map_eq_some_iff.mp h
      cases heq
      rw [scan_comment_of_after? hafter, ih hcut]

end ScanState

/-- A body without `*/` is closed by the first one behind it. -/
theorem Text.cut?_close {body : Text} (h : body.has "*/" = false) (rest : Text) :
    Text.cut? (body ++ ("*/".toList ++ rest)) "*/" = some (body, rest) := by
  induction body with
  | nil => exact Text.cut?_of_after? (Text.after?_append _ rest)
  | cons c body ih =>
    rw [Text.has_cons, Bool.or_eq_false_iff] at h
    have hafter : Text.after? (c :: (body ++ ("*/".toList ++ rest))) "*/" = none := by
      have hnone : Text.after? (c :: body) "*/" = none := by simpa [Text.startsWith] using h.1
      by_cases hc : c = '*'
      · -- a star at the end of the body is followed by the star of the delimiter
        subst hc
        cases body with
        | nil => rfl
        | cons d body => simpa [Text.after?] using hnone
      · simp [Text.after?, hc]
    rw [List.cons_append, Text.cut?_cons, hafter, ih h.2]
    rfl

/-! ## §3 Spaces between code -/

/-- The scanner reads a space behind `front` as code. -/
def IsCodeSpace (state : ScanState) (front : Text) : Prop :=
  (state.scan (front ++ [' '])).glyphs = (state.scan front).glyphs ++ [.code ' ']

instance (state : ScanState) (front : Text) : Decidable (IsCodeSpace state front) :=
  inferInstanceAs (Decidable (_ = _))

/-- In front of a space of code the scanner is outside literals and comments. -/
theorem IsCodeSpace.eq_default {state : ScanState} (h : IsCodeSpace state []) : state = {} := by
  have hspace : (state.scan [' ']).glyphs = [.code ' '] := h
  by_cases hcomment : state.inBlockComment = true
  · rw [ScanState.scan_comment_step hcomment (by decide)] at hspace
    simp at hspace
  by_cases hliteral : (state.inString || state.inChar) = true
  · have hinside : state.InLiteral := .of_not hcomment hliteral
    rw [hinside.scan_content (state.ne_quote (by decide) (by decide)) (by decide)] at hspace
    simp [ScannedLine.push, Glyph.literal, Glyph.code] at hspace
  · exact ScanState.eq_default hcomment hliteral

/-- What follows does not make a comment of a slash at the end of `front`. -/
def KeepsSlash (front rest : Text) : Prop :=
  front.getLast? = some '/' → beginsWith makesComment rest = false

theorem KeepsSlash.tail {c : Char} {front rest : Text} (h : KeepsSlash (c :: front) rest) :
    KeepsSlash front rest := fun hlast => h (by simp [List.getLast?_cons, hlast])

/-- A step in front of a space of code: where `front` is read up to `back` in the same way whatever
follows, the space is behind `back`, and what holds of `back` holds of `front`. -/
theorem IsCodeSpace.scan_append_of_step (glyphs : List Glyph) {state next : ScanState}
    {front back : Text}
    (hstep : ∀ tail, KeepsSlash front tail →
      state.scan (front ++ tail) = (next.scan (back ++ tail)).prepend glyphs)
    {rest : Text} (ih : IsCodeSpace next back →
      next.scan (back ++ rest) = (ScanState.scan {} rest).prepend (next.scan back).glyphs)
    (h : IsCodeSpace state front) (hrest : KeepsSlash front rest) :
    state.scan (front ++ rest) = (ScanState.scan {} rest).prepend (state.scan front).glyphs := by
  have hfront : state.scan front = (next.scan back).prepend glyphs := by
    have hnone := hstep [] fun _ => rfl
    rwa [List.append_nil, List.append_nil] at hnone
  have hback : IsCodeSpace next back := by
    rw [IsCodeSpace, hstep [' '] fun _ => rfl, hfront] at h
    simpa [IsCodeSpace, ScannedLine.prepend] using h
  rw [hstep rest hrest, ih hback, hfront, ScannedLine.prepend_prepend]
  rfl

/-- A space behind an open comment is inside it. -/
theorem not_isCodeSpace_comment {state : ScanState} (h : state.inBlockComment = true) (c : Char) :
    ¬ IsCodeSpace state [c] := by
  rw [IsCodeSpace, List.singleton_append, ScanState.scan_comment_step h (fun _ => by decide),
    ScanState.scan_comment_step h (by decide)]
  simp

/-- A space behind a backslash in a literal is escaped. -/
theorem not_isCodeSpace_escape {state : ScanState} (h : state.InLiteral) :
    ¬ IsCodeSpace state ['\\'] := by
  rw [IsCodeSpace, List.singleton_append, h.scan_escape, h.scan_escapeEnd]
  simp [ScannedLine.push, Glyph.literal, Glyph.code]

/-- A line comment takes the space with it. -/
theorem not_isCodeSpace_lineComment (front : Text) : ¬ IsCodeSpace {} ('/' :: '/' :: front) := by
  have hnone : ScanState.scan {} ('/' :: '/' :: front ++ [' ']) = ⟨[], {}⟩ := rfl
  rw [IsCodeSpace, hnone]
  simp

/-- A slash keeps its meaning in front of whatever does not make a comment of it. -/
theorem KeepsSlash.scan_code {c : Char} {front tail : Text} (h : KeepsSlash (c :: front) tail)
    (hquote : isQuote c = false) (hslash : c = '/' → beginsWith makesComment front = false) :
    ScanState.scan {} (c :: (front ++ tail)) =
      (ScanState.scan {} (front ++ tail)).push (.code c) := by
  refine ScanState.scan_code hquote fun hc => ?_
  cases front with
  | nil => exact h (by simp [hc])
  | cons d front => exact hslash hc

/-- The scanner reads what stands in front of a space of code and what follows it independently of
each other. -/
theorem IsCodeSpace.scan_append {state : ScanState} {front : Text} (h : IsCodeSpace state front)
    {rest : Text} (hrest : KeepsSlash front rest) :
    state.scan (front ++ rest) = (ScanState.scan {} rest).prepend (state.scan front).glyphs := by
  induction state, front using ScanState.line_induction with
  | nil state =>
    rw [h.eq_default]
    rfl
  | commentClose state front hcomment ih =>
    exact scan_append_of_step [.code ' '] (fun _ _ => ScanState.scan_comment_close hcomment _)
      (ih · hrest.tail.tail) h hrest
  | commentStep state c front hcomment hopen ih =>
    cases front with
    | nil => exact absurd h (not_isCodeSpace_comment hcomment c)
    | cons d front =>
      have hnext : ∀ tail, c = '*' → beginsWith (· == '/') (d :: front ++ tail) = false :=
        fun _ => hopen
      exact scan_append_of_step [] (fun tail _ => ScanState.scan_comment_step hcomment (hnext tail))
        (ih · hrest.tail) h hrest
  | escapeEnd state hinside => exact absurd h (not_isCodeSpace_escape hinside)
  | escape state c front hinside ih =>
    exact scan_append_of_step [.literal '\\', .literal c] (fun _ _ => hinside.scan_escape c _)
      (ih · hrest.tail.tail) h hrest
  | closeQuote state front hinside ih =>
    exact scan_append_of_step [.code state.quote] (fun _ _ => hinside.scan_quote _)
      (ih · hrest.tail) h hrest
  | content state c front hinside hescape hquote ih =>
    exact scan_append_of_step [.literal c]
      (fun _ _ => hinside.scan_content hquote fun hback => absurd hback hescape)
      (ih · hrest.tail) h hrest
  | lineComment front => exact absurd h (not_isCodeSpace_lineComment front)
  | blockComment front ih =>
    exact scan_append_of_step [] (fun _ _ => rfl) (ih · hrest.tail.tail) h hrest
  | openQuote quote front hquote ih =>
    exact scan_append_of_step [.code quote] (fun _ _ => ScanState.scan_openQuote hquote _)
      (ih · hrest.tail) h hrest
  | code c front hquote hslash ih =>
    exact scan_append_of_step [.code c] (fun _ htail => htail.scan_code hquote hslash)
      (ih · hrest.tail) h hrest

namespace IsCodeSpace

variable {state : ScanState} {front : Text} (h : IsCodeSpace state front)
include h

theorem state_eq : (state.scan front).state = {} := by
  have hscan := @scan_append state front h [] fun _ => rfl
  rw [List.append_nil] at hscan
  rw [hscan]
  rfl

/-- The line with the space. -/
theorem scan_space (back : Text) : state.scan (front ++ ' ' :: back) =
    ((ScanState.scan {} back).push (.code ' ')).prepend (state.scan front).glyphs := by
  rw [h.scan_append fun _ => rfl, ScanState.scan_plain rfl]

/-- A block comment in the place of the space is read as a space. -/
theorem scan_blockComment (hslash : front.getLast? ≠ some '/') {body : Text}
    (hbody : body.has "*/" = false) (back : Text) :
    state.scan (front ++ ("/*".toList ++ (body ++ ("*/".toList ++ back)))) =
      state.scan (front ++ ' ' :: back) := by
  have hopen : ScanState.scan {} ("/*".toList ++ (body ++ ("*/".toList ++ back))) =
      ScanState.comment.scan (body ++ ("*/".toList ++ back)) := rfl
  rw [h.scan_append fun hlast => absurd hlast hslash, hopen,
    ScanState.scan_comment_of_cut (Text.cut?_close hbody back), h.scan_space]

end IsCodeSpace

end DeclDocs
