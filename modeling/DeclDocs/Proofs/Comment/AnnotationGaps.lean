import DeclDocs.Proofs.Comment.AnnotationRows

/-!
# Gaps are sequences of annotations

The gap between a comment and its declaration is checked line by line, with the parentheses and the
literal that are open carried from one line to the next.  Taken together the lines pass if their
code is blanks and annotations, the last argument list possibly open.  A line that holds only a
comment has blank code; such a line passes inside an argument list and nowhere else.

* `joinedGlyphs`: the glyphs of all the lines, with line breaks between them.
* `gapDepth?_eq_some_iff`: the check of a line is that of its row.
* `continuesGap_iff`: lines behind open parentheses.
* `isTransparentGap_iff_annotations`: the lines of a gap.
-/

namespace DeclDocs

/-! ## §1 Lines together -/

/-- The glyphs of the lines, a line break between neighbours. -/
def joinedGlyphs (state : ScanState) (lines : List Text) : List Glyph :=
  List.intercalate [.code '\n'] ((scanLines state lines).map ScannedLine.glyphs)

private theorem joinedGlyphs_singleton (state : ScanState) (line : Text) :
    joinedGlyphs state [line] = (state.scan line).glyphs := by
  simp [joinedGlyphs, scanLines]

theorem joinedGlyphs_cons_cons (state : ScanState) (line next : Text) (lines : List Text) :
    joinedGlyphs state (line :: next :: lines) = (state.scan line).glyphs ++
      .code '\n' :: joinedGlyphs (state.scan line).state (next :: lines) := by
  simp [joinedGlyphs, scanLines]

/-- The text of the glyphs is the code of the lines. -/
theorem codeOf_joinedGlyphs (state : ScanState) (lines : List Text) :
    codeOf (joinedGlyphs state lines) =
      Text.join ['\n'] ((scanLines state lines).map ScannedLine.code) := by
  induction lines generalizing state with
  | nil => rfl
  | cons line lines ih =>
    cases lines with
    | nil => simp [joinedGlyphs_singleton, scanLines, ScannedLine.code]
    | cons next lines =>
      let codes := (scanLines (state.scan line).state (next :: lines)).map ScannedLine.code
      have hne : codes ≠ [] := by simp [codes, scanLines]
      have hjoin : Text.join ['\n'] ((state.scan line).code :: codes) =
          (state.scan line).code ++ (['\n'] ++ Text.join ['\n'] codes) :=
        Text.join_cons hne ['\n'] _
      rw [joinedGlyphs_cons_cons, codeOf_append, codeOf_cons, ih]
      exact hjoin.symm

/-- Behind the row of the first line the glyphs of the others follow, or nothing if there are no
others. -/
theorem exists_tail_joinedGlyphs (state : ScanState) (line : Text) (lines : List Text) :
    ∃ tail, joinedGlyphs state (line :: lines) = (state.scan line).glyphs ++ tail ∧ EndsRow tail ∧
      ∀ isOpen depth, Resumes isOpen depth tail ↔
        Resumes isOpen depth (joinedGlyphs (state.scan line).state lines) := by
  cases lines with
  | nil =>
    refine ⟨[], ?_, trivial, fun _ _ => Iff.rfl⟩
    rw [joinedGlyphs_singleton, List.append_nil]
  | cons next lines =>
    refine ⟨_, joinedGlyphs_cons_cons state line next lines, Or.inl rfl, fun isOpen depth => ?_⟩
    have hbreak : ∀ g ∈ [Glyph.code '\n'], isBlank g.char = true := by decide
    exact resumes_append_blanks hbreak

/-- The characters that the scanner keeps are those of the line, and spaces for comments. -/
theorem forall_code_scan {p : Char → Bool} (hspace : p ' ' = true) {state : ScanState} {line : Text}
    (h : ∀ c ∈ line, p c = true) : ∀ c ∈ (state.scan line).code, p c = true := by
  have hpush : ∀ {g : Glyph} {scanned : ScannedLine}, p g.char = true →
      (∀ c ∈ scanned.code, p c = true) → ∀ c ∈ (scanned.push g).code, p c = true :=
    fun hg hcode => List.forall_mem_cons.mpr ⟨hg, hcode⟩
  fun_induction ScanState.scan state line with
  | case1 => exact List.forall_mem_nil _
  | case2 _ _ rest ih =>
    obtain ⟨-, -, hrest⟩ := List.forall_mem_cons.mp h |>.imp_right List.forall_mem_cons.mp
    exact hpush hspace (ih hrest)
  | case3 _ _ _ rest _ ih => exact ih (List.forall_mem_cons.mp h).2
  | case4 => exact h
  | case5 _ _ _ escaped rest ih =>
    obtain ⟨hescape, hescaped, hrest⟩ :=
      List.forall_mem_cons.mp h |>.imp_right List.forall_mem_cons.mp
    exact hpush hescape (hpush hescaped (ih hrest))
  | case8 => exact List.forall_mem_nil _
  | case9 _ _ _ rest ih =>
    obtain ⟨-, -, hrest⟩ := List.forall_mem_cons.mp h |>.imp_right List.forall_mem_cons.mp
    exact ih hrest
  | case6 | case7 | case10 | case11 | case12 =>
    -- one character is kept
    rename_i ih
    obtain ⟨hc, hrest⟩ := List.forall_mem_cons.mp h
    exact hpush hc (ih hrest)

/-! ## §2 The check of a line -/

theorem annotationsOpen?_blanks {row : List Glyph} (h : ∀ g ∈ row, isBlank g.char = true) :
    annotationsOpen? row = some 0 := by
  have htrim : Text.trim (codeOf row) = [] := Text.trim_append_of_blank (forall_codeOf h) []
  rw [annotationsOpen?_eq, htrim]
  exact congrArg some (leftOpen_append_blanks h [])

/-- **The check of a line is that of its row**, but for a line whose code is blank though the line
is not: it is rejected outside argument lists. -/
theorem gapDepth?_eq_some_iff {state : ScanState} {depth next : Nat} {line : Text} :
    gapDepth? depth line (state.scan line) = some next ↔
      rowDepth? depth (state.scan line).glyphs = some next ∧
        (depth = 0 → line.isBlankText = false → (state.scan line).code.isBlankText = false) := by
  cases depth with
  | succ nested =>
    exact (and_iff_left fun hzero => absurd hzero (Nat.succ_ne_zero nested)).symm
  | zero =>
    rw [gapDepth?, rowDepth?]
    cases hline : line.isBlankText with
    | true =>
      have hcode : ∀ c ∈ (state.scan line).code, isBlank c = true :=
        forall_code_scan rfl (List.all_eq_true.mp hline)
      rw [annotationsOpen?_blanks (List.forall_mem_map.mp hcode)]
      simp
    | false =>
      cases hcode : (state.scan line).code.isBlankText <;> simp

/-! ## §3 The lines of a gap -/

/-- Every line whose code is blank though the line is not begins inside an argument list, the lines
being read from `state` behind `depth` open parentheses. -/
def CommentsInside (state : ScanState) (depth : Nat) (lines : List Text) : Prop :=
  ∀ before line after, lines = before ++ line :: after → line.isBlankText = false →
    ((stateAfter state before).scan line).code.isBlankText = true →
      Resumes true depth (joinedGlyphs state before)

/-- Where no parenthesis is open, no literal is. -/
def IsCodeAt (state : ScanState) (depth : Nat) : Prop :=
  depth = 0 → CodePlace.ofState state = .code

section Lines

variable {state : ScanState} {depth next : Nat} {line : Text} {lines : List Text}

/-- The first line and the others. -/
theorem resumes_cons_iff (hcode : IsCodeAt state depth) (hline : '\n' ∉ line) (isOpen : Bool)
    (lines : List Text) :
    Resumes isOpen depth (joinedGlyphs state (line :: lines)) ↔
      ∃ next, rowDepth? depth (state.scan line).glyphs = some next ∧
        Resumes isOpen next (joinedGlyphs (state.scan line).state lines) := by
  obtain ⟨last, hreads, -⟩ := CodePlace.Reads.of_scan state line
  obtain ⟨tail, hjoined, htail, hrest⟩ := exists_tail_joinedGlyphs state line lines
  have hbreak : '\n' ∉ (state.scan line).code := by
    have hchars : ∀ c ∈ (state.scan line).code, (c != '\n') = true :=
      forall_code_scan rfl fun c hc => by
        rw [bne_iff_ne]
        rintro rfl
        exact hline hc
    exact fun hmem => absurd (hchars '\n' hmem) (by decide)
  rw [hjoined, resumes_append_iff hreads hcode hbreak htail]
  simp only [hrest]

/-- A line that leaves no parenthesis open ends outside literals. -/
theorem IsCodeAt.step (hcode : IsCodeAt state depth) (hline : '\n' ∉ line)
    (hnext : rowDepth? depth (state.scan line).glyphs = some next) :
    IsCodeAt (state.scan line).state next := by
  rintro rfl
  obtain ⟨last, hreads, hstate⟩ := CodePlace.Reads.of_scan state line
  have hrow : Resumes false depth (joinedGlyphs state [line]) :=
    (resumes_cons_iff hcode hline false []).mpr ⟨0, hnext, .nil⟩
  rw [joinedGlyphs_singleton] at hrow
  rw [← hstate, hrow.last_eq_code hreads hcode]
  rfl

theorem commentsInside_cons (hcode : IsCodeAt state depth) (hline : '\n' ∉ line)
    (hnext : rowDepth? depth (state.scan line).glyphs = some next) :
    CommentsInside state depth (line :: lines) ↔
      (depth = 0 → line.isBlankText = false → (state.scan line).code.isBlankText = false) ∧
        CommentsInside (state.scan line).state next lines := by
  -- behind the first line the same glyphs go on behind the parentheses that it leaves open
  have hfront : ∀ before, Resumes true depth (joinedGlyphs state (line :: before)) ↔
      Resumes true next (joinedGlyphs (state.scan line).state before) := by
    intro before
    rw [resumes_cons_iff hcode hline]
    simp [hnext]
  constructor
  · intro h
    refine ⟨fun hdepth hblank => ?_, fun before other after hlines hblank hother => ?_⟩
    · subst hdepth
      rw [← Bool.not_eq_true]
      intro hempty
      have hopen : Annotations true [] := h [] line lines rfl hblank hempty
      cases hopen
    · exact (hfront before).mp (h (line :: before) other after (by rw [hlines]; rfl) hblank hother)
  · rintro ⟨hfirst, hrest⟩ before other after hlines hblank hother
    cases before with
    | nil =>
      obtain ⟨rfl, rfl⟩ := List.cons.inj hlines
      cases depth with
      | zero =>
        have hempty : (state.scan line).code.isBlankText = true := hother
        simp [hfirst rfl hblank] at hempty
      | succ nested => rfl
    | cons first before =>
      obtain ⟨rfl, htail⟩ := List.cons.inj hlines
      exact (hfront before).mpr (hrest before other after htail hblank hother)

/-- **Lines that continue a gap are those that resume annotations**, with comment lines only inside
argument lists. -/
theorem continuesGap_iff (hcode : IsCodeAt state depth) (hlines : ∀ line ∈ lines, '\n' ∉ line) :
    continuesGap state depth lines = true ↔
      (∃ isOpen, Resumes isOpen depth (joinedGlyphs state lines)) ∧
        CommentsInside state depth lines := by
  induction lines generalizing state depth with
  | nil =>
    refine iff_of_true rfl ⟨?_, fun before line after hnil => by simp at hnil⟩
    cases depth with
    | zero => exact ⟨false, .nil⟩
    | succ nested => exact ⟨true, rfl⟩
  | cons line lines ih =>
    obtain ⟨hline, hrest⟩ := List.forall_mem_cons.mp hlines
    have hstep : continuesGap state depth (line :: lines) = true ↔
        ∃ next, gapDepth? depth line (state.scan line) = some next ∧
          continuesGap (state.scan line).state next lines = true := by
      rw [continuesGap]
      cases gapDepth? depth line (state.scan line) <;> simp
    simp only [hstep, gapDepth?_eq_some_iff, resumes_cons_iff hcode hline]
    constructor
    · rintro ⟨next, ⟨hnext, hfirst⟩, hgap⟩
      obtain ⟨⟨isOpen, hopen⟩, hinside⟩ := (ih (hcode.step hline hnext) hrest).mp hgap
      exact ⟨⟨isOpen, next, hnext, hopen⟩,
        (commentsInside_cons hcode hline hnext).mpr ⟨hfirst, hinside⟩⟩
    · rintro ⟨⟨isOpen, next, hnext, hopen⟩, hinside⟩
      obtain ⟨hfirst, hlater⟩ := (commentsInside_cons hcode hline hnext).mp hinside
      exact ⟨next, ⟨hnext, hfirst⟩,
        (ih (hcode.step hline hnext) hrest).mpr ⟨⟨isOpen, hopen⟩, hlater⟩⟩

end Lines

/-- **The check of a gap accepts exactly sequences of annotations.**  The code of the lines, joined
by line breaks, is blanks and annotations, of which the last may have its argument list open; and a
line that is not blank though its code is begins inside an argument list. -/
theorem isTransparentGap_iff_annotations (lines : List Text)
    (hlines : ∀ line ∈ lines, '\n' ∉ line) :
    codeOf (joinedGlyphs {} lines) =
        Text.join ['\n'] ((scanLines {} lines).map ScannedLine.code) ∧
      (isTransparentGap lines = true ↔
        (∃ isOpen, Annotations isOpen (joinedGlyphs {} lines)) ∧
          ∀ before line after, lines = before ++ line :: after → line.isBlankText = false →
            ((stateAfter {} before).scan line).code.isBlankText = true →
              Annotations true (joinedGlyphs {} before)) := by
  have hcode : IsCodeAt {} 0 := fun _ => rfl
  exact ⟨codeOf_joinedGlyphs {} lines, continuesGap_iff hcode hlines⟩

/-- An argument list that runs over three lines, with a parenthesis in a literal and a comment line,
another annotation behind it, and a blank line. -/
def spreadArguments : List Text :=
  ["@Path(value = \"(\",", "  // (", "  size = (1))  @b.C", ""]

theorem isTransparentGap_spreadArguments :
    (∀ line ∈ spreadArguments, '\n' ∉ line) ∧ isTransparentGap spreadArguments = true ∧
      (∃ isOpen, Annotations isOpen (joinedGlyphs {} spreadArguments)) ∧
        Annotations true (joinedGlyphs {} (spreadArguments.take 1)) := by
  have hlines : ∀ line ∈ spreadArguments, '\n' ∉ line := by decide +kernel
  have htransparent : isTransparentGap spreadArguments = true := by decide +kernel
  obtain ⟨hgap, hinside⟩ :=
    (isTransparentGap_iff_annotations spreadArguments hlines).2.mp htransparent
  refine ⟨hlines, htransparent, hgap, ?_⟩
  -- the comment line begins inside the argument list of the first
  exact hinside (spreadArguments.take 1) "  // (" (spreadArguments.drop 2) rfl (by decide +kernel)
    (by decide +kernel)

end DeclDocs
