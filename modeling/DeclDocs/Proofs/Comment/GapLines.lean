import DeclDocs.Comment.Search
import DeclDocs.Proofs.Declaration.Stripping
import DeclDocs.Proofs.Text.Lines

/-!
# Lines between a comment and its declaration

A line of blanks and complete annotations leaves nothing open and lets the search for a comment
pass, whatever stands in the literals of its arguments.

* `annotationRow`, `IsGapLine`: such lines as they are written.
* `IsGapLine.gapDepth?_eq`, `IsGapLine.closesComment_eq`: one line keeps the gap open and is no
  candidate for the end of a comment.
* `isTransparentGap_of_isGapLine`: all lines of a gap together.
-/

namespace DeclDocs

open Text (isSolid beginsWith endsIn)

/-! ## §1 Annotations on one line -/

/-- Annotations in a row, each with the blanks that follow it. -/
def annotationRow (parts : List (Decorator × Padding)) : Text :=
  parts.flatMap fun (decorator, padding) => decorator.text ++ padding.text

theorem annotationRow_cons (decorator : Decorator) (padding : Padding)
    (parts : List (Decorator × Padding)) :
    annotationRow ((decorator, padding) :: parts) =
      decorator.text ++ (padding.text ++ annotationRow parts) := by
  simp [annotationRow]

/-- Annotations in a row close their parentheses. -/
theorem exists_readsNested_annotationRow (parts : List (Decorator × Padding)) :
    ∃ glyphs, ReadsNested (annotationRow parts) glyphs := by
  induction parts with
  | nil => exact ⟨[], .nil⟩
  | cons part parts ih =>
    obtain ⟨decorator, padding⟩ := part
    obtain ⟨glyphs, hdecorator⟩ := ReadsNested.of_decorator decorator
    obtain ⟨rest, hrest⟩ := ih
    rw [annotationRow_cons]
    exact ⟨_, hdecorator.append ((ReadsNested.of_inert padding.inert).append hrest)⟩

/-- The name of an annotation ends at a blank, at the next annotation or with the line. -/
theorem beginsWith_padding_annotationRow (padding : Padding) (parts : List (Decorator × Padding)) :
    beginsWith isAnnotationChar (padding.text ++ annotationRow parts) = false := by
  cases htext : padding.text with
  | nil => cases parts <;> rfl
  | cons c cs =>
    have hblank : isBlank c = true := padding.blank c (by simp [htext])
    rw [List.cons_append, Text.beginsWith_cons, ← Bool.not_eq_true]
    intro hc
    have hsolid := isSolid_of_isAnnotationChar hc
    simp [isSolid, hblank] at hsolid

/-- Stripping annotations leaves nothing of a row. -/
theorem strip_annotationRow (parts : List (Decorator × Padding)) :
    Text.strip dropAnnotation? (annotationRow parts) = [] := by
  induction parts with
  | nil => rfl
  | cons part parts ih =>
    obtain ⟨decorator, padding⟩ := part
    have hwhole : ScannedWhole (padding.text ++ annotationRow parts) := by
      obtain ⟨glyphs, hread⟩ := exists_readsNested_annotationRow parts
      exact padding.readsAs.scannedWhole_append hread.scannedWhole
    -- the next annotation begins with its at sign
    have htrim : Text.trimStart (padding.text ++ annotationRow parts) = annotationRow parts := by
      rw [Text.trimStart_append_of_blank padding.blank]
      cases parts <;> rfl
    have hparen : beginsWith (· == '(') (annotationRow parts) = false := by
      cases parts <;> rfl
    have hname := beginsWith_padding_annotationRow padding parts
    rw [annotationRow_cons, Text.strip_eq dropAnnotation?_shorter,
      dropAnnotation?_append decorator hwhole hname (by rw [htrim]; exact hparen), htrim]
    exact ih

/-- The last character of an annotation: of its name, or the closing parenthesis. -/
theorem Decorator.ends (decorator : Decorator) :
    endsIn (fun c => isSolid c && c != '/') decorator.text = true := by
  have hname : endsIn (fun c => isSolid c && c != '/') decorator.name = true :=
    Text.endsIn_of_all decorator.nonempty fun c hc => by
      have hchar := decorator.chars c hc
      have hslash : c ≠ '/' := Text.ne_of_class (isInert_of_isAnnotationChar hchar) (by decide)
      simp [isSolid_of_isAnnotationChar hchar, hslash]
  unfold Decorator.text Decorator.argumentText
  cases decorator.arguments with
  | none => simpa using Text.endsIn_append hname ['@']
  | some arguments =>
    have hclosing : endsIn (fun c => isSolid c && c != '/') [')'] = true := by decide
    have := Text.endsIn_append hclosing ('@' :: (decorator.name ++ ('(' :: arguments.text)))
    simpa using this

/-! ## §2 Lines of the gap -/

/-- The line holds blanks and complete annotations only. -/
def IsGapLine (line : Text) : Prop :=
  ∃ (before : Padding) (parts : List (Decorator × Padding)),
    line = before.text ++ annotationRow parts

namespace IsGapLine

variable {line : Text}

/-- A gap line is blank, or annotations with blanks around them; the last annotation ends the text
between the blanks. -/
theorem exists_surrounded (h : IsGapLine line) :
    (∀ c ∈ line, isBlank c = true) ∨
      ∃ (before after : Padding) (first : Decorator × Padding)
        (rest : List (Decorator × Padding)),
        line = before.text ++ (annotationRow (first :: rest) ++ after.text) ∧
          endsIn (fun c => isSolid c && c != '/') (annotationRow (first :: rest)) = true := by
  obtain ⟨before, parts, rfl⟩ := h
  rcases List.eq_nil_or_concat' parts with rfl | ⟨front, ⟨decorator, padding⟩, rfl⟩
  · left
    simpa [annotationRow] using before.blank
  · right
    -- the blanks behind the last annotation belong to the end of the line
    have hrow : annotationRow (front ++ [(decorator, padding)]) =
        annotationRow (front ++ [(decorator, .empty)]) ++ padding.text := by
      simp [annotationRow, Padding.empty]
    have hends : endsIn (fun c => isSolid c && c != '/')
        (annotationRow (front ++ [(decorator, .empty)])) = true := by
      have := Text.endsIn_append decorator.ends (annotationRow front)
      simpa [annotationRow, Padding.empty] using this
    obtain ⟨first, rest, hcons⟩ : ∃ first rest, front ++ [(decorator, Padding.empty)] =
        first :: rest := List.exists_cons_of_ne_nil (by simp)
    rw [hcons] at hrow hends
    exact ⟨before, padding, first, rest, by rw [hrow], hends⟩

private theorem exists_readsNested (h : IsGapLine line) : ∃ glyphs, ReadsNested line glyphs := by
  obtain ⟨before, parts, rfl⟩ := h
  obtain ⟨glyphs, hread⟩ := exists_readsNested_annotationRow parts
  exact ⟨_, (ReadsNested.of_inert before.inert).append hread⟩

/-- The line keeps the gap open and leaves no parenthesis open. -/
theorem gapDepth?_eq (h : IsGapLine line) : gapDepth? 0 line (scanLine line) = some 0 := by
  obtain ⟨glyphs, hread⟩ := h.exists_readsNested
  have hscan : (scanLine line).glyphs = glyphs := by
    rw [← hread.scannedWhole.maskGlyphs_eq, hread.maskGlyphs_eq]
  rcases h.exists_surrounded with
    hblank | ⟨before, after, ⟨decorator, padding⟩, rest, hline, hends⟩
  · have : line.isBlankText = true := List.all_eq_true.mpr hblank
    simp [gapDepth?, this]
  · have htrim : Text.trim (codeOf glyphs) = annotationRow ((decorator, padding) :: rest) := by
      rw [hread.code, hline]
      refine Text.trim_surrounded before.blank rfl (Text.endsIn_mono ?_ hends) after.blank
      intro c hc
      rw [Bool.and_eq_true] at hc
      exact hc.1
    -- neither the line nor its code is blank
    have hat : '@' ∈ line := by
      rw [hline, annotationRow_cons, Decorator.text]
      simp
    have hblank : line.isBlankText = false := by
      rw [← Bool.not_eq_true, Text.isBlankText, List.all_eq_true]
      intro hall
      exact absurd (hall '@' hat) (by decide)
    have hcode : (scanLine line).code.isBlankText = false := by
      rw [ScannedLine.code, hscan, hread.code, hblank]
    have hcount : countCode '(' glyphs = countCode ')' glyphs := by
      have hcounts := countP_parens hread.parens
      rw [List.countP_map, List.countP_map] at hcounts
      exact hcounts
    -- the code is annotations only, and none of them is `@interface`
    have hempty : stripAnnotations (annotationRow ((decorator, padding) :: rest)) = [] :=
      strip_annotationRow ((decorator, padding) :: rest)
    have hinterface :
        Text.startsWith (annotationRow ((decorator, padding) :: rest)) "@interface" = false := by
      have hname := beginsWith_padding_annotationRow padding rest
      rw [annotationRow_cons, Decorator.text, List.cons_append, List.append_assoc]
      exact decorator.startsWith_interface hname
    have hopen : annotationsOpen? glyphs = some 0 := by
      unfold annotationsOpen?
      dsimp only
      have hfirst : Text.startsWith (annotationRow ((decorator, padding) :: rest)) "@" = true := by
        simp [annotationRow_cons, Decorator.text, Text.startsWith, Text.after?]
      have hne : (annotationRow ((decorator, padding) :: rest)).isEmpty = false := rfl
      rw [htrim, hempty, hinterface, hfirst, hne, hcount, Nat.sub_self]
      rfl
    simp only [gapDepth?, hblank, hcode, hscan, hopen, Bool.false_eq_true, if_false]

theorem state_eq (h : IsGapLine line) : (scanLine line).state = {} := by
  obtain ⟨glyphs, hread⟩ := h.exists_readsNested
  have hscan := hread.scan []
  rw [List.append_nil] at hscan
  rw [scanLine, hscan]
  rfl

/-- The line is no candidate for the end of a comment. -/
theorem closesComment_eq (h : IsGapLine line) : closesComment line = false := by
  rcases h.exists_surrounded with hblank | ⟨before, after, first, rest, rfl, hends⟩
  · rw [closesComment, Text.trimEnd_of_blank hblank]
    rfl
  · have hsolid : endsIn isSolid (annotationRow (first :: rest)) = true :=
      Text.endsIn_mono (fun c hc => (Bool.and_eq_true_iff.mp hc).1) hends
    rw [closesComment, ← List.append_assoc,
      Text.trimEnd_append_blank (Text.endsIn_append hsolid _) after.blank, ← Bool.not_eq_true]
    -- the line would have to end with a slash
    intro hmark
    obtain ⟨front, hbefore⟩ := Option.isSome_iff_exists.mp hmark
    have hlast := Text.endsIn_append hends before.text
    rw [Text.before?_eq_some_iff.mp hbefore, Text.endsIn_append_eq (by decide)] at hlast
    exact absurd hlast (by decide)

/-- A gap line may be indented. -/
theorem indent (h : IsGapLine line) {blanks : Text} (hblanks : ∀ c ∈ blanks, isBlank c = true) :
    IsGapLine (blanks ++ line) := by
  obtain ⟨before, parts, rfl⟩ := h
  refine ⟨⟨blanks ++ before.text, fun c hc => ?_⟩, parts, (List.append_assoc ..).symm⟩
  exact (List.mem_append.mp hc).elim (hblanks c) (before.blank c)

/-- A carriage return at the end of a gap line is one of its blanks. -/
theorem dropReturn (h : IsGapLine line) : IsGapLine (Text.dropReturn line) := by
  unfold Text.dropReturn
  cases hbefore : Text.before? line ['\r'] with
  | none => exact h
  | some front =>
    rw [Option.getD_some]
    have hline := Text.before?_eq_some_iff.mp hbefore
    obtain ⟨before, parts, rfl⟩ := h
    rcases List.eq_nil_or_concat' parts with rfl | ⟨others, ⟨decorator, padding⟩, rfl⟩
    · have htext : before.text = front ++ ['\r'] := by simpa [annotationRow] using hline
      refine ⟨⟨front, fun c hc => before.blank c (by simp [htext, hc])⟩, [], ?_⟩
      simp [annotationRow]
    · have hrow : annotationRow (others ++ [(decorator, padding)]) =
          annotationRow others ++ (decorator.text ++ padding.text) := by
        simp [annotationRow]
      rw [hrow] at hline
      rcases List.eq_nil_or_concat' padding.text with hnil | ⟨blanks, last, hlast⟩
      · -- the last annotation ends the line, and not with a carriage return
        have hends := Text.endsIn_append decorator.ends (before.text ++ annotationRow others)
        rw [List.append_assoc, ← List.append_nil decorator.text, ← hnil, hline,
          Text.endsIn_append_eq (by decide)] at hends
        exact absurd hends (by decide)
      · -- the blanks behind the last annotation lose their last one
        rw [hlast, ← List.append_assoc, ← List.append_assoc, ← List.append_assoc] at hline
        have hfront := (List.append_inj_left' hline rfl).symm
        refine ⟨before, others ++ [(decorator,
          ⟨blanks, fun c hc => padding.blank c (by simp [hlast, hc])⟩)], ?_⟩
        simp [hfront, annotationRow]

end IsGapLine

/-- Gap lines together are a gap. -/
theorem isTransparentGap_of_isGapLine {lines : List Text} (h : ∀ line ∈ lines, IsGapLine line) :
    isTransparentGap lines = true := by
  unfold isTransparentGap
  induction lines with
  | nil => rfl
  | cons line lines ih =>
    have hline := h line (List.mem_cons_self ..)
    have hdepth : gapDepth? 0 line (ScanState.scan {} line) = some 0 := hline.gapDepth?_eq
    have hstate : (ScanState.scan {} line).state = {} := hline.state_eq
    -- so the next line is read as the first one was
    rw [continuesGap, hdepth, hstate]
    exact ih fun other hmem => h other (List.mem_cons_of_mem _ hmem)

end DeclDocs
