import DeclDocs.Declaration.Member
import DeclDocs.Proofs.Comment.AnnotationRows

/-!
# Member lines behind annotations

A line is read for a member in several passes: comments go, then the blanks around the code, then
the annotations in front, and each pass scans what the one before it has left.  Where the front of
the line is annotations and a body that the scanner reads as it stands, the passes leave the body
and what the scanner keeps of the rest of the line.

* `SpacedDecorator`, `DecoratorRow`: annotations with free blanks, and rows of them.
* `stripAnnotations_rowText`: a row is taken off as a whole.
* `shown_maskGlyphs_of_isPrefix`: code that is scanned anew shows what it has shown before.
* `stripAnnotations_memberCode`: what is left of a line.
-/

namespace DeclDocs

open Text (isSolid beginsWith endsIn)

/-! ## §1 Annotations with free blanks -/

/-- An annotation.  Blanks may stand in front of its argument list and behind it. -/
structure SpacedDecorator where
  name : Text
  isName : IsAnnotationName name
  arguments : Option (Padding × Arguments)
  after : Padding

namespace SpacedDecorator

variable (decorator : SpacedDecorator)

/-- The argument list with the blanks in front of it. -/
def argumentText : Text :=
  decorator.arguments.elim [] fun part => part.1.text ++ '(' :: (part.2.text ++ [')'])

/-- The annotation as it is written. -/
def text : Text :=
  '@' :: (decorator.name ++ (decorator.argumentText ++ decorator.after.text))

/-- The scanner reads the name with its at sign as code. -/
theorem readsAs_name :
    ReadsAs ('@' :: decorator.name) (('@' :: decorator.name).map Glyph.code) := by
  apply ReadsAs.of_plain
  intro c hc
  rcases List.mem_cons.mp hc with rfl | hmem
  · decide
  · exact isPlain_of_isInert (isInert_of_isAnnotationChar (decorator.isName.chars c hmem))

theorem readsAs : ∃ glyphs, ReadsAs decorator.text glyphs := by
  have harguments : ∃ glyphs, ReadsAs decorator.argumentText glyphs := by
    unfold argumentText
    cases decorator.arguments with
    | none => exact ⟨[], .nil⟩
    | some part =>
      obtain ⟨glyphs, -, hread⟩ := part.2.readsAs
      exact ⟨_, part.1.readsAs.append hread⟩
  obtain ⟨glyphs, hread⟩ := harguments
  exact ⟨_, decorator.readsAs_name.append (hread.append decorator.after.readsAs)⟩

end SpacedDecorator

/-- Annotations in a row. -/
def rowText (parts : List SpacedDecorator) : Text :=
  parts.flatMap SpacedDecorator.text

theorem rowText_cons (part : SpacedDecorator) (parts : List SpacedDecorator) :
    rowText (part :: parts) = part.text ++ rowText parts :=
  List.flatMap_cons

/-- Blanks and annotations in front of a word.  The name of an annotation ends with the at sign of
the next one; a name at the end of the row is kept apart from the word by blanks. -/
structure DecoratorRow where
  indent : Padding
  parts : List SpacedDecorator
  apart : ∀ last ∈ parts.getLast?, last.arguments = none → last.after.text ≠ []

/-- The row as it is written. -/
def DecoratorRow.text (row : DecoratorRow) : Text :=
  row.indent.text ++ rowText row.parts

/-- The end of a row is that of its last annotation. -/
theorem apart_of_cons {part : SpacedDecorator} {parts : List SpacedDecorator}
    (h : ∀ last ∈ (part :: parts).getLast?, last.arguments = none → last.after.text ≠ []) :
    (∀ last ∈ parts.getLast?, last.arguments = none → last.after.text ≠ []) ∧
      (parts = [] → part.arguments = none → part.after.text ≠ []) := by
  refine ⟨fun last hlast => h last ?_, ?_⟩
  · cases parts with
    | nil => simp at hlast
    | cons next parts => rwa [List.getLast?_cons_cons]
  · rintro rfl
    exact h part rfl

theorem exists_readsAs_rowText (parts : List SpacedDecorator) :
    ∃ glyphs, ReadsAs (rowText parts) glyphs := by
  induction parts with
  | nil => exact ⟨[], .nil⟩
  | cons part parts ih =>
    obtain ⟨front, hfront⟩ := part.readsAs
    obtain ⟨back, hback⟩ := ih
    exact ⟨front ++ back, hfront.append hback⟩

theorem beginsWith_rowText {p : Char → Bool} (hat : p '@' = true) {rest : Text}
    (hrest : beginsWith p rest = true) (parts : List SpacedDecorator) :
    beginsWith p (rowText parts ++ rest) = true := by
  cases parts with
  | nil => exact hrest
  | cons part parts => exact hat

/-! ## §2 Taking a row off -/

/-- Blanks in front make no difference. -/
theorem stripAnnotations_padding (padding : Padding) (rest : Text) :
    stripAnnotations (padding.text ++ rest) = stripAnnotations rest := by
  rw [stripAnnotations, Text.trimStart_append_of_blank padding.blank, stripAnnotations]

/-- One annotation is taken off. -/
theorem stripAnnotations_spaced (decorator : SpacedDecorator) {rest : Text}
    (hwhole : ScannedWhole rest)
    (hbare : decorator.arguments = none →
      beginsWith isAnnotationChar (decorator.after.text ++ rest) = false)
    (hparen : beginsWith (· == '(') rest.trimStart = false) :
    stripAnnotations (decorator.text ++ rest) = stripAnnotations rest := by
  obtain ⟨name, hname, arguments, after⟩ := decorator
  rw [← stripAnnotations_padding after rest]
  cases arguments with
  | none =>
    have htrim : (after.text ++ rest).trimStart = rest.trimStart :=
      Text.trimStart_append_of_blank after.blank rest
    have hstrip := stripAnnotations_bare hname.chars (hbare rfl) hname (by rw [htrim]; exact hparen)
    simpa [SpacedDecorator.text, SpacedDecorator.argumentText] using hstrip
  | some part =>
    obtain ⟨gap, arguments⟩ := part
    have htext : SpacedDecorator.text ⟨name, hname, some (gap, arguments), after⟩ ++ rest =
        '@' :: (name ++ (gap.text ++ '(' :: (arguments.text ++ ')' :: (after.text ++ rest)))) := by
      simp [SpacedDecorator.text, SpacedDecorator.argumentText]
    -- neither a blank nor the parenthesis goes on with the name
    have hends : beginsWith isAnnotationChar
        (gap.text ++ '(' :: (arguments.text ++ ')' :: (after.text ++ rest))) = false := by
      cases hgap : gap.text with
      | nil => rfl
      | cons b blanks =>
        have hblank : isBlank b = true := gap.blank b (by simp [hgap])
        show isAnnotationChar b = false
        rw [← Bool.not_eq_true]
        intro hchar
        have hsolid := isSolid_of_isAnnotationChar hchar
        simp [isSolid, hblank] at hsolid
    have htrim : Text.trimStart
        (gap.text ++ '(' :: (arguments.text ++ ')' :: (after.text ++ rest))) =
          '(' :: (arguments.text ++ ')' :: (after.text ++ rest)) := by
      rw [Text.trimStart_append_of_blank gap.blank]
      exact Text.trimStart_eq_self rfl
    obtain ⟨inside, hclose⟩ :=
      untilClose_arguments arguments (after.readsAs.scannedWhole_append hwhole)
    have hdrop := dropAnnotation?_name hname.chars hends hname
    simp only [htrim, hclose, codeOf_maskGlyphs] at hdrop
    rw [htext, stripAnnotations_of_drop hdrop, stripAnnotations]

/-- **A row of annotations is taken off as a whole.** -/
theorem stripAnnotations_rowText {parts : List SpacedDecorator}
    (hapart : ∀ last ∈ parts.getLast?, last.arguments = none → last.after.text ≠ []) {rest : Text}
    (hwhole : ScannedWhole rest) (hrest : beginsWith isDeclarationStart rest = true) :
    stripAnnotations (rowText parts ++ rest) = rest := by
  induction parts with
  | nil => exact stripAnnotations_spread [] hwhole hrest
  | cons part parts ih =>
    obtain ⟨hlast, halone⟩ := apart_of_cons hapart
    -- what follows begins with an at sign or with the declaration
    have hsolid : beginsWith isSolid (rowText parts ++ rest) = true :=
      beginsWith_rowText rfl
        (Text.beginsWith_mono (fun _ => isSolid_of_isDeclarationStart) hrest) parts
    have hother : beginsWith (· != '(') (rowText parts ++ rest) = true := by
      apply beginsWith_rowText rfl
      apply Text.beginsWith_mono _ hrest
      intro c hc
      exact bne_iff_ne.mpr (Text.ne_of_class hc (by decide))
    have hparen : beginsWith (· == '(') (rowText parts ++ rest).trimStart = false := by
      rw [Text.trimStart_eq_self hsolid]
      cases hfollowing : rowText parts ++ rest with
      | nil => rfl
      | cons c cs => simpa [hfollowing] using hother
    have hbare : part.arguments = none →
        beginsWith isAnnotationChar (part.after.text ++ (rowText parts ++ rest)) = false := by
      intro harguments
      by_cases hafter : part.after.text = []
      · -- only another annotation can follow directly
        cases parts with
        | nil => exact absurd hafter (halone rfl harguments)
        | cons next parts =>
          rw [hafter]
          exact (rfl : isAnnotationChar '@' = false)
      · exact Separator.begins_eq_false ⟨part.after, hafter⟩
          (fun c => isSolid_of_isAnnotationChar) _
    obtain ⟨glyphs, hread⟩ := exists_readsAs_rowText parts
    rw [rowText_cons, List.append_assoc,
      stripAnnotations_spaced part (hread.scannedWhole_append hwhole) hbare hparen]
    exact ih hlast

/-! ## §3 Code that is scanned anew -/

/-- The scanner keeps the front of a line that it reads as it stands. -/
theorem ReadsAs.code_scanLine {front : Text} {glyphs : List Glyph} (h : ReadsAs front glyphs)
    (rest : Text) : (scanLine (front ++ rest)).code = front ++ (scanLine rest).code := by
  rw [scanLine, h.scan]
  show codeOf (glyphs ++ (scanLine rest).glyphs) = _
  rw [codeOf_append, h.code]
  rfl

/-- **Scanned anew, the beginning of what the scanner has kept of a line** shows what it has shown
in the line: the code of a line opens no comments, and its literals are where they were. -/
theorem shown_maskGlyphs_of_isPrefix {line kept : Text} (h : kept <+: (scanLine line).code) :
    ScannedWhole kept ∧
      (maskGlyphs kept).map Glyph.shown <+: (scanLine line).glyphs.map Glyph.shown := by
  obtain ⟨more, hmore⟩ := h
  obtain ⟨last, hreads, -⟩ := CodePlace.Reads.of_scan {} line
  have hrun : CodePlace.code.run (kept ++ more) = some last := by
    rw [hmore]
    exact hreads.run
  rw [CodePlace.run_append, Option.bind_eq_some_iff] at hrun
  obtain ⟨next, hkept, -⟩ := hrun
  obtain ⟨hwhole, hshown⟩ := CodePlace.shown_maskGlyphs (Option.isSome_of_eq_some hkept)
  refine ⟨hwhole, next.shows more, ?_⟩
  have hshows := CodePlace.shows_append hkept more
  rw [hmore] at hshows
  rw [hshown, ← hshows]
  exact hreads.shows

/-- What the scanner keeps of the line, without the blanks at its end. -/
def keptCode (line : Text) : Text :=
  Text.trimEnd (scanLine line).code

theorem keptCode_isPrefix (line : Text) : keptCode line <+: (scanLine line).code :=
  Text.trimEnd_isPrefix _

/-- Trimming does not reach into a front that ends with a character other than a blank. -/
theorem ReadsAs.keptCode_append {front : Text} {glyphs : List Glyph} (h : ReadsAs front glyphs)
    (hends : endsIn isSolid front = true) (rest : Text) :
    keptCode (front ++ rest) = front ++ keptCode rest := by
  rw [keptCode, h.code_scanLine, Text.trimEnd_append hends, keptCode]

theorem scannedWhole_keptCode (line : Text) : ScannedWhole (keptCode line) :=
  (shown_maskGlyphs_of_isPrefix (keptCode_isPrefix line)).1

/-! ## §4 What is left of a line -/

/-- **What is left of a line** behind its annotations: the body that follows them and what the
scanner keeps of the rest. -/
theorem stripAnnotations_memberCode (row : DecoratorRow) {body : Text} {glyphs : List Glyph}
    (hread : ReadsAs body glyphs) (hbegins : beginsWith isDeclarationStart body = true)
    (hends : endsIn isSolid body = true) (rest : Text) :
    stripAnnotations (memberCode (row.text ++ (body ++ rest))) = body ++ keptCode rest := by
  obtain ⟨front, hfront⟩ := exists_readsAs_rowText row.parts
  have hline : row.text ++ (body ++ rest) =
      row.indent.text ++ ((rowText row.parts ++ body) ++ rest) := by
    simp [DecoratorRow.text]
  have hsolid : beginsWith isSolid (rowText row.parts ++ body) = true :=
    beginsWith_rowText rfl
      (Text.beginsWith_mono (fun _ => isSolid_of_isDeclarationStart) hbegins) row.parts
  have hkept : memberCode (row.text ++ (body ++ rest)) =
      rowText row.parts ++ (body ++ keptCode rest) := by
    -- the row and the body begin and end with characters that trimming leaves
    rw [memberCode, hline, row.indent.readsAs.code_scanLine, (hfront.append hread).code_scanLine,
      Text.trim, Text.trimStart_append_of_blank row.indent.blank,
      Text.trimStart_eq_self (Text.beginsWith_append hsolid _),
      Text.trimEnd_append (Text.endsIn_append hends _), List.append_assoc]
    rfl
  rw [hkept]
  apply stripAnnotations_rowText row.apart
  · exact hread.scannedWhole_append (scannedWhole_keptCode rest)
  · exact Text.beginsWith_append hbegins _

end DeclDocs
