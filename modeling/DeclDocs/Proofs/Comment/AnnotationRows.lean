import DeclDocs.Comment.Gap
import DeclDocs.Proofs.Comment.AnnotationGrammar

/-!
# Rows of annotations

The glyphs of one line, behind the parentheses that the lines above have left open, are checked by
stripping annotations off their text.  The text is scanned anew for that, from wherever an argument
list begins, and the scanner shows in it what it has shown in the line.  So the check of the line
accepts what the grammar accepts, whatever the lines below are, and the number that it returns is
the number of parentheses that they begin behind.

* `CodePlace.Reads`: the text of glyphs, scanned anew, shows what they show.
* `isChecked_row`: stripping annotations off a row.
* `rowDepth?`, `resumes_append_iff`: the check of a row behind open parentheses.
* `Resumes.last_eq_code`: a row that leaves nothing open ends outside literals.
-/

namespace DeclDocs

open Text (isSolid beginsWith)

/-! ## §1 Glyphs that are scanned anew -/

/-- A reader that begins at `place` shows of the text of the glyphs what they show, and ends at
`last`. -/
structure CodePlace.Reads (place : CodePlace) (glyphs : List Glyph) (last : CodePlace) : Prop where
  run : place.run (codeOf glyphs) = some last
  shows : place.shows (codeOf glyphs) = glyphs.map Glyph.shown

namespace CodePlace.Reads

variable {place last : CodePlace} {g : Glyph} {glyphs front back : List Glyph}

/-- The glyphs of a scanned line. -/
theorem of_scan (state : ScanState) (line : Text) :
    ∃ last, (ofState state).Reads (state.scan line).glyphs last ∧
      last.afterBlank = ofState (state.scan line).state := by
  have hfits : (ofState state).Fits state := Or.inl rfl
  have hslash : ofState state = slash → beginsWith makesComment line = false :=
    fun hslash => absurd hslash (ofState_ne_slash state)
  obtain ⟨last, hrun, hlast⟩ := hfits.run_scan hslash
  exact ⟨last, ⟨hrun, hfits.shows_scan hslash⟩, hlast⟩

theorem of_cons (h : place.Reads (g :: glyphs) last) :
    ∃ next, place.step g.char = some next ∧ place.shown g.char = g.shown ∧
      next.Reads glyphs last := by
  obtain ⟨next, hstep, hrun⟩ := exists_step_of_run h.run
  have hshows : place.shows (g.char :: codeOf glyphs) = g.shown :: glyphs.map Glyph.shown := h.shows
  rw [shows_cons hstep] at hshows
  obtain ⟨hshown, hrest⟩ := List.cons.inj hshows
  exact ⟨next, hstep, hshown, hrun, hrest⟩

theorem of_append (h : place.Reads (front ++ back) last) :
    ∃ next, place.Reads front next ∧ next.Reads back last := by
  obtain ⟨hrun, hshows⟩ := h
  rw [codeOf_append, run_append, Option.bind_eq_some_iff] at hrun
  obtain ⟨next, hfront, hback⟩ := hrun
  rw [codeOf_append, shows_append hfront, List.map_append] at hshows
  have hlength : (place.shows (codeOf front)).length = (front.map Glyph.shown).length := by
    rw [length_shows hfront, codeOf, List.length_map, List.length_map]
  obtain ⟨hfirst, hsecond⟩ := List.append_inj hshows hlength
  exact ⟨next, ⟨hfront, hfirst⟩, ⟨hback, hsecond⟩⟩

/-- Behind a parenthesis of code the reader stands outside literals. -/
theorem behind_close (h : place.Reads (front ++ .code ')' :: back) last) :
    code.Reads back last := by
  obtain ⟨between, -, hclose⟩ := h.of_append
  obtain ⟨next, hstep, hshown, hback⟩ := hclose.of_cons
  rw [(step_of_shown_close hshown).2] at hstep
  rwa [Option.some.inj hstep]

/-- A character that opens nothing is code. -/
theorem of_plain (h : code.Reads (g :: glyphs) last) (hplain : ScanState.isPlain g.char = true) :
    g.shown = g.char ∧ code.Reads glyphs last := by
  obtain ⟨next, hstep, hshown, hrest⟩ := h.of_cons
  rw [step_plain hplain] at hstep
  rw [Option.some.inj hstep]
  exact ⟨hshown.symm, hrest⟩

private theorem behind_plain (h : code.Reads (front ++ back) last)
    (hplain : ∀ g ∈ front, ScanState.isPlain g.char = true) : code.Reads back last := by
  induction front with
  | nil => exact h
  | cons g front ih =>
    obtain ⟨hg, hfront⟩ := List.forall_mem_cons.mp hplain
    apply ih _ hfront
    exact (h.of_plain hg).2

private theorem behind_blanks (h : code.Reads (front ++ back) last)
    (hblanks : ∀ g ∈ front, isBlank g.char = true) : code.Reads back last :=
  h.behind_plain fun g hg => ScanState.isPlain_of_isBlank (hblanks g hg)

private theorem behind_marked {name : Text} (h : code.Reads (marked name ++ back) last)
    (hname : ∀ c ∈ name, isAnnotationChar c = true) : code.Reads back last := by
  apply h.behind_plain
  intro g hg
  rcases List.mem_cons.mp hg with rfl | hg
  · rfl
  · obtain ⟨c, hc, rfl⟩ := List.mem_map.mp hg
    exact isPlain_of_isInert (isInert_of_isAnnotationChar (hname c hc))

/-- The longest name at the beginning is code. -/
theorem exists_name (h : code.Reads glyphs last) :
    ∃ (name : Text) (rest : List Glyph), glyphs = name.map Glyph.code ++ rest ∧
      (∀ c ∈ name, isAnnotationChar c = true) ∧
        beginsWith isAnnotationChar (codeOf rest) = false := by
  induction glyphs with
  | nil => exact ⟨[], [], rfl, by simp, rfl⟩
  | cons g glyphs ih =>
    by_cases hchar : isAnnotationChar g.char = true
    · obtain ⟨hshown, hrest⟩ := h.of_plain (isPlain_of_isInert (isInert_of_isAnnotationChar hchar))
      obtain ⟨name, rest, rfl, hname, hends⟩ := ih hrest
      -- content of a literal would show a space
      have hcode : g = .code g.char :=
        (Glyph.shown_eq_iff (Text.ne_of_class hchar (by decide))).mp hshown
      refine ⟨g.char :: name, rest, by rw [List.map_cons, ← hcode, List.cons_append], ?_, hends⟩
      exact List.forall_mem_cons.mpr ⟨hchar, hname⟩
    · exact ⟨[], g :: glyphs, rfl, by simp, by simpa [codeOf] using hchar⟩

end CodePlace.Reads

/-! ## §2 Argument lists that are scanned anew -/

/-- Where a group closes depends on what the glyphs show. -/
theorem exists_untilClose_of_shown {nested : Nat} {glyphs others inside rest : List Glyph}
    (h : glyphs.map Glyph.shown = others.map Glyph.shown)
    (hclose : untilClose '(' ')' nested glyphs = some (inside, rest)) :
    ∃ within behind, untilClose '(' ')' nested others = some (within, behind) ∧
      within.length = inside.length := by
  obtain ⟨rfl, hinside⟩ := untilClose_eq_some_iff.mp hclose
  rw [List.map_append, List.map_cons, Glyph.shown_code] at h
  obtain ⟨within, behind, rfl, hwithin, -⟩ := exists_glyphs_of_shown (by decide) h.symm
  refine ⟨within, behind, untilClose_eq_some_iff.mpr ⟨rfl, hwithin ▸ hinside⟩, ?_⟩
  simpa using congrArg List.length hwithin

/-- **A group closes in the text that is scanned anew where it closes in the line.** -/
theorem untilClose_maskGlyphs {glyphs : List Glyph} {last : CodePlace}
    (h : CodePlace.code.Reads glyphs last) (nested : Nat) :
    (untilClose '(' ')' nested (maskGlyphs (codeOf glyphs))).map (fun parts => codeOf parts.2) =
      (untilClose '(' ')' nested glyphs).map fun parts => codeOf parts.2 := by
  have hshown : (maskGlyphs (codeOf glyphs)).map Glyph.shown = glyphs.map Glyph.shown := by
    rw [(CodePlace.shown_maskGlyphs (Option.isSome_of_eq_some h.run)).2, h.shows]
  cases hclose : untilClose '(' ')' nested glyphs with
  | none =>
    cases hmask : untilClose '(' ')' nested (maskGlyphs (codeOf glyphs)) with
    | none => rfl
    | some parts =>
      obtain ⟨within, behind, hother, -⟩ := exists_untilClose_of_shown hshown hmask
      simp [hclose] at hother
  | some parts =>
    obtain ⟨inside, rest⟩ := parts
    obtain ⟨within, behind, hmask, hlength⟩ := exists_untilClose_of_shown hshown.symm hclose
    -- the same text is cut at the same place
    have htext : codeOf within ++ ')' :: codeOf behind = codeOf inside ++ ')' :: codeOf rest := by
      rw [← Offsets.codeOf_untilClose (by decide) hmask, codeOf_maskGlyphs,
        Offsets.codeOf_untilClose (by decide) hclose]
    have hcut := (List.append_inj htext (by simpa [codeOf] using hlength)).2
    simp only [hmask, Option.map_some, (List.cons.inj hcut).2]

/-! ## §3 Stripping an annotation -/

section Strip

variable {name rest : Text} (hchars : ∀ c ∈ name, isAnnotationChar c = true)
  (hends : beginsWith isAnnotationChar rest = false)

/-- A text that no annotation begins is not stripped. -/
theorem stripAnnotations_eq_self {c : Char} {cs : Text} (hsolid : isBlank c = false)
    (hdrop : dropAnnotation? (c :: cs) = none) : stripAnnotations (c :: cs) = c :: cs := by
  have htrim : Text.trimStart (c :: cs) = c :: cs :=
    Text.trimStart_eq_self (by simp [isSolid, hsolid])
  rw [stripAnnotations, htrim, Text.strip_eq dropAnnotation?_shorter, hdrop]

private theorem dropAnnotation?_of_ne {c : Char} (h : c ≠ '@') (cs : Text) :
    dropAnnotation? (c :: cs) = none := by
  unfold dropAnnotation?
  split
  case h_1 heq => exact absurd (List.cons.inj heq).1 h
  case h_2 => rfl

/-- A text that an annotation begins is stripped of it. -/
theorem stripAnnotations_of_drop {cs behind : Text}
    (hdrop : dropAnnotation? ('@' :: cs) = some behind) :
    stripAnnotations ('@' :: cs) = Text.strip dropAnnotation? behind := by
  have htrim : Text.trimStart ('@' :: cs) = '@' :: cs := Text.trimStart_eq_self rfl
  rw [stripAnnotations, htrim, Text.strip_eq dropAnnotation?_shorter, hdrop]

include hchars hends

private theorem stripAnnotations_of_not_name (hname : ¬ IsAnnotationName name) :
    stripAnnotations ('@' :: (name ++ rest)) ≠ [] := by
  have hdrop : dropAnnotation? ('@' :: (name ++ rest)) = none := by
    rw [dropAnnotation?, Text.startsWith_append hends (by decide),
      Text.takeWhile_append_of_begins hchars hends]
    apply if_pos
    by_contra hother
    rw [Bool.or_eq_true, not_or, Bool.not_eq_true, List.isEmpty_iff] at hother
    exact hname ⟨hother.2, hchars, hother.1⟩
  rw [stripAnnotations_eq_self rfl hdrop]
  exact List.cons_ne_nil _ _

theorem dropAnnotation?_name (hname : IsAnnotationName name) :
    dropAnnotation? ('@' :: (name ++ rest)) =
      match Text.trimStart rest with
      | '(' :: arguments =>
        match untilClose '(' ')' 0 (maskGlyphs arguments) with
        | some (_, behind) => some (Text.trimStart (codeOf behind))
        | none => some []
      | other => some other := by
  have hempty : name.isEmpty = false := by simp [hname.nonempty]
  rw [dropAnnotation?, Text.startsWith_append hends (by decide),
    Text.takeWhile_append_of_begins hchars hends, Text.dropWhile_append_of_begins hchars hends,
    hname.notInterface, hempty]
  rfl

/-- Without an argument list the name is stripped. -/
theorem stripAnnotations_bare (hname : IsAnnotationName name)
    (hparen : beginsWith (· == '(') rest.trimStart = false) :
    stripAnnotations ('@' :: (name ++ rest)) = stripAnnotations rest := by
  have hdrop : dropAnnotation? ('@' :: (name ++ rest)) = some rest.trimStart := by
    rw [dropAnnotation?_name hchars hends hname]
    split
    case h_1 _ arguments heq => simp [heq] at hparen
    case h_2 => rfl
  rw [stripAnnotations_of_drop hdrop, stripAnnotations]

/-- The argument list is stripped with the name, or all of the text if it does not close. -/
theorem stripAnnotations_group (hname : IsAnnotationName name) {arguments : List Glyph}
    {last : CodePlace} (hreads : CodePlace.code.Reads arguments last)
    (hparen : rest.trimStart = '(' :: codeOf arguments) :
    stripAnnotations ('@' :: (name ++ rest)) =
      ((untilClose '(' ')' 0 arguments).map fun parts =>
        stripAnnotations (codeOf parts.2)).getD [] := by
  have hmask := untilClose_maskGlyphs hreads 0
  have hdrop : dropAnnotation? ('@' :: (name ++ rest)) =
      match untilClose '(' ')' 0 (maskGlyphs (codeOf arguments)) with
      | some (_, behind) => some (Text.trimStart (codeOf behind))
      | none => some [] := by
    rw [dropAnnotation?_name hchars hends hname, hparen]
    rfl
  cases hclose : untilClose '(' ')' 0 arguments with
  | none =>
    rw [hclose, Option.map_none, Option.map_eq_none_iff] at hmask
    rw [hmask] at hdrop
    rw [stripAnnotations_of_drop hdrop]
    rfl
  | some parts =>
    rw [hclose, Option.map_some, Option.map_eq_some_iff] at hmask
    obtain ⟨other, hother, hbehind⟩ := hmask
    rw [hother] at hdrop
    rw [stripAnnotations_of_drop hdrop, hbehind, Option.map_some, Option.getD_some,
      stripAnnotations]

end Strip

/-! ## §4 Parentheses that a row leaves open -/

section LeftOpen

variable {c : Char} {front back glyphs blanks : List Glyph}

/-- The parentheses that the glyphs open and do not close. -/
def leftOpen (glyphs : List Glyph) : Nat :=
  countCode '(' glyphs - countCode ')' glyphs

theorem countCode_append (c : Char) (front back : List Glyph) :
    countCode c (front ++ back) = countCode c front + countCode c back :=
  List.countP_append

/-- Glyphs that close what they open do not count. -/
theorem leftOpen_append (h : countCode '(' front = countCode ')' front) (back : List Glyph) :
    leftOpen (front ++ back) = leftOpen back := by
  rw [leftOpen, countCode_append, countCode_append, h, Nat.add_sub_add_left, leftOpen]

theorem countCode_eq_zero {p : Char → Bool} (h : ∀ g ∈ glyphs, p g.shown = true)
    (hc : p c = false) : countCode c glyphs = 0 := by
  rw [countCode, List.countP_eq_zero]
  intro g hg
  simpa using Text.ne_of_class (h g hg) hc

private theorem countCode_blanks (h : ∀ g ∈ blanks, isBlank g.char = true)
    (hc : isBlank c = false) : countCode c blanks = 0 :=
  countCode_eq_zero (fun g hg => Glyph.isBlank_shown (h g hg)) hc

theorem leftOpen_blanks_append (h : ∀ g ∈ blanks, isBlank g.char = true) (back : List Glyph) :
    leftOpen (blanks ++ back) = leftOpen back := by
  apply leftOpen_append
  rw [countCode_blanks h (by decide), countCode_blanks h (by decide)]

theorem leftOpen_append_blanks (h : ∀ g ∈ blanks, isBlank g.char = true) (front : List Glyph) :
    leftOpen (front ++ blanks) = leftOpen front := by
  rw [leftOpen, countCode_append, countCode_append, countCode_blanks h (by decide),
    countCode_blanks h (by decide), Nat.add_zero, Nat.add_zero, leftOpen]

theorem leftOpen_marked_append {name : Text} (h : ∀ c ∈ name, isAnnotationChar c = true)
    (back : List Glyph) : leftOpen (marked name ++ back) = leftOpen back := by
  have hzero : ∀ c, (isAnnotationChar c || c == '@') = false → countCode c (marked name) = 0 := by
    intro c hc
    refine countCode_eq_zero (p := fun c => isAnnotationChar c || c == '@') (fun g hg => ?_) hc
    rcases List.mem_cons.mp hg with rfl | hg
    · rfl
    · obtain ⟨d, hd, rfl⟩ := List.mem_map.mp hg
      exact Bool.or_eq_true_iff.mpr (Or.inl (h d hd))
  apply leftOpen_append
  rw [hzero '(' (by decide), hzero ')' (by decide)]

/-- A group that closes. -/
theorem leftOpen_group {inside : List Glyph} (h : IsNested 0 (inside.map Glyph.shown))
    (back : List Glyph) :
    leftOpen (.code '(' :: (inside ++ .code ')' :: back)) = leftOpen back := by
  have hcount : countCode '(' inside = countCode ')' inside := by
    have hparens := countP_parens h
    rw [List.countP_map, List.countP_map] at hparens
    exact hparens
  have hgroup : countCode '(' (.code '(' :: (inside ++ [.code ')'])) =
      countCode ')' (.code '(' :: (inside ++ [.code ')'])) := by
    simp only [countCode_cons, countCode_append, hcount]
    rfl
  simpa using leftOpen_append hgroup back

end LeftOpen

/-! ## §5 A row of annotations -/

/-- Only blanks stand in front of the next line. -/
def EndsRow : List Glyph → Prop
  | [] => True
  | g :: rest => g.char = '\n' ∨ isBlank g.char = true ∧ EndsRow rest

namespace EndsRow

variable {isOpen : Bool} {tail blanks : List Glyph}

theorem blanks_append (h : EndsRow tail) (hblanks : ∀ g ∈ blanks, isBlank g.char = true) :
    EndsRow (blanks ++ tail) := by
  induction blanks with
  | nil => exact h
  | cons g blanks ih =>
    exact Or.inr ⟨hblanks g (List.mem_cons_self ..),
      ih fun other hmem => hblanks other (List.mem_cons_of_mem _ hmem)⟩

theorem endsName (h : EndsRow tail) : EndsName tail := by
  rintro g hg
  cases tail with
  | nil => cases hg
  | cons first tail =>
    obtain rfl : first = g := Option.some.inj hg
    have hblank : isBlank first.char = true := by
      rcases h with hbreak | ⟨hblank, -⟩
      · rw [hbreak]
        rfl
      · exact hblank
    exact isAnnotationChar_of_isBlank (Glyph.isBlank_shown hblank)

private theorem not_opensGroup (h : EndsRow tail) : ¬ OpensGroup isOpen tail := by
  rintro ⟨blanks, inside, rfl, hblanks, -⟩
  induction blanks with
  | nil => exact absurd h (by simp [EndsRow, Glyph.code, isBlank])
  | cons g blanks ih =>
    obtain ⟨hg, hrest⟩ := List.forall_mem_cons.mp hblanks
    rcases h with hbreak | ⟨-, htail⟩
    · simp [Glyph.isRowBlank, hbreak] at hg
    · exact ih htail hrest

end EndsRow

theorem forall_codeOf {p : Char → Bool} {glyphs : List Glyph}
    (h : ∀ g ∈ glyphs, p g.char = true) : ∀ c ∈ codeOf glyphs, p c = true :=
  List.forall_mem_map.mpr h

/-- The blanks at the beginning of glyphs. -/
theorem exists_glyphs_trimStart (glyphs : List Glyph) :
    ∃ blanks rest, glyphs = blanks ++ rest ∧ (∀ g ∈ blanks, isBlank g.char = true) ∧
      (∀ g ∈ rest.head?, isBlank g.char = false) ∧
        codeOf rest = Text.trimStart (codeOf glyphs) := by
  refine ⟨glyphs.takeWhile (isBlank ·.char), glyphs.dropWhile (isBlank ·.char),
    List.takeWhile_append_dropWhile.symm, fun g hg => ?_, fun g hg => ?_, ?_⟩
  · exact List.mem_takeWhile_imp (p := fun g : Glyph => isBlank g.char) hg
  · have hfirst := List.head?_dropWhile_not (fun g : Glyph => isBlank g.char) glyphs
    rw [Option.mem_def.mp hg] at hfirst
    simpa using hfirst
  · rw [codeOf, codeOf, Text.trimStart, List.dropWhile_map]
    rfl

theorem codeOf_marked_append (name : Text) (rest : List Glyph) :
    codeOf (marked name ++ rest) = '@' :: (name ++ codeOf rest) := by
  rw [codeOf_append]
  exact congrArg ('@' :: · ++ codeOf rest) (codeOf_map_code name)

section Row

variable {isOpen : Bool} {name : Text} {row tail rest : List Glyph} {last : CodePlace}

/-- The row is checked rightly: stripping annotations leaves nothing of it and what follows goes on
behind the parentheses that it leaves open, if both together are annotations. -/
def IsChecked (isOpen : Bool) (row tail : List Glyph) : Prop :=
  Annotations isOpen (row ++ tail) ↔
    stripAnnotations (codeOf row) = [] ∧ Resumes isOpen (leftOpen row) tail

theorem endsName_append (hends : beginsWith isAnnotationChar (codeOf rest) = false)
    (htail : EndsRow tail) : EndsName (rest ++ tail) := by
  cases rest with
  | nil => exact htail.endsName
  | cons g rest =>
    rintro _ ⟨⟩
    have hchar : isAnnotationChar g.char = false := hends
    unfold Glyph.shown
    split
    · rfl
    · exact hchar

private theorem isRowBlank_of_line {glyphs : List Glyph} (hline : '\n' ∉ codeOf glyphs)
    (hblanks : ∀ g ∈ glyphs, isBlank g.char = true) : ∀ g ∈ glyphs, g.isRowBlank = true := by
  intro g hg
  have hbreak : g.char ≠ '\n' := fun heq => hline (heq ▸ List.mem_map_of_mem hg)
  simp [Glyph.isRowBlank, hblanks g hg, hbreak]

/-- No argument list opens in the rest of a row that does not begin with a parenthesis. -/
theorem not_opensGroup_append (hparen : beginsWith (· == '(') (codeOf rest).trimStart = false)
    (htail : EndsRow tail) : ¬ OpensGroup isOpen (rest ++ tail) := by
  obtain ⟨blanks, more, rfl, hblanks, hsolid, htrim⟩ := exists_glyphs_trimStart rest
  rw [← htrim] at hparen
  cases more with
  | nil =>
    rw [List.append_nil]
    exact (htail.blanks_append hblanks).not_opensGroup
  | cons g more =>
    rintro ⟨others, inside, heq, hothers, -⟩
    rw [List.append_assoc] at heq
    have hfirst : ∀ first ∈ (g :: more ++ tail).head?, isBlank first.char = false := by
      rintro _ ⟨⟩
      exact hsolid g rfl
    have hopening : ∀ first ∈ (Glyph.code '(' :: inside).head?, isBlank first.char = false := by
      rintro _ ⟨⟩
      rfl
    have hblank : ∀ other ∈ others, isBlank other.char = true :=
      fun other hmem => Glyph.isBlank_of_isRowBlank (hothers other hmem)
    -- what follows the blanks would have to be the parenthesis
    have hbehind := (append_inj_of_class (p := fun g : Glyph => isBlank g.char) heq hblanks hblank
      hfirst hopening).2
    obtain rfl : g = .code '(' := (List.cons.inj hbehind).1
    exact Bool.noConfusion hparen

/-- An annotation without an argument list. -/
theorem isChecked_bare (hname : IsAnnotationName name)
    (hends : beginsWith isAnnotationChar (codeOf rest) = false)
    (hparen : beginsWith (· == '(') (codeOf rest).trimStart = false) (htail : EndsRow tail)
    (hrest : IsChecked isOpen rest tail) : IsChecked isOpen (marked name ++ rest) tail := by
  have hnoGroup : ¬ OpensGroup isOpen (rest ++ tail) := not_opensGroup_append hparen htail
  rw [IsChecked, List.append_assoc,
    annotations_marked_iff hname.chars (endsName_append hends htail), and_iff_right hname,
    or_iff_left hnoGroup, leftOpen_marked_append hname.chars, codeOf_marked_append,
    stripAnnotations_bare hname.chars hends hname hparen]
  exact hrest

/-- An annotation with an argument list. -/
theorem isChecked_group {blanks arguments : List Glyph} (hname : IsAnnotationName name)
    (hblanks : ∀ g ∈ blanks, g.isRowBlank = true) (hreads : CodePlace.code.Reads arguments last)
    (hrest : ∀ inside behind, arguments = inside ++ .code ')' :: behind →
      IsChecked isOpen behind tail) :
    IsChecked isOpen (marked name ++ (blanks ++ .code '(' :: arguments)) tail := by
  have hblank : ∀ g ∈ blanks, isBlank g.char = true :=
    fun g hg => Glyph.isBlank_of_isRowBlank (hblanks g hg)
  have hends : EndsName (blanks ++ .code '(' :: (arguments ++ tail)) :=
    endsName_blanks_append hblank (endsName_opening _)
  have hbegins :
      beginsWith isAnnotationChar (codeOf (blanks ++ .code '(' :: arguments)) = false := by
    cases blanks with
    | nil => rfl
    | cons g blanks => exact isAnnotationChar_of_isBlank (hblank g (List.mem_cons_self ..))
  have htrim : (codeOf (blanks ++ .code '(' :: arguments)).trimStart = '(' :: codeOf arguments := by
    rw [codeOf_append, Text.trimStart_append_of_blank (forall_codeOf hblank)]
    rfl
  have hnone : ¬ Annotations isOpen (blanks ++ .code '(' :: (arguments ++ tail)) := by
    rw [annotations_append_blanks hblank]
    exact not_annotations_cons rfl (by decide)
  rw [IsChecked, List.append_assoc, List.append_assoc, List.cons_append,
    annotations_marked_iff hname.chars hends, and_iff_right hname, or_iff_right hnone,
    opensGroup_append_iff hblanks, codeOf_marked_append, leftOpen_marked_append hname.chars,
    leftOpen_blanks_append hblank, stripAnnotations_group hname.chars hbegins hname hreads htrim]
  cases hclose : untilClose '(' ')' 0 arguments with
  | none =>
    have hopen : leftOpen (.code '(' :: arguments) =
        0 + 1 + countCode '(' arguments - countCode ')' arguments := by
      rw [leftOpen, countCode_cons, countCode_cons, Glyph.shown_code, if_pos rfl,
        if_neg (by decide)]
      omega
    rw [resumes_append_of_none hclose, hopen]
    exact (and_iff_right rfl).symm
  | some parts =>
    obtain ⟨inside, behind⟩ := parts
    rw [resumes_append_of_some hclose]
    obtain ⟨rfl, hinside⟩ := untilClose_eq_some_iff.mp hclose
    rw [leftOpen_group hinside]
    exact hrest inside behind rfl

/-- A name that no annotation may have. -/
theorem isChecked_of_not_name (hchars : ∀ c ∈ name, isAnnotationChar c = true)
    (hname : ¬ IsAnnotationName name) (hends : beginsWith isAnnotationChar (codeOf rest) = false)
    (htail : EndsRow tail) : IsChecked isOpen (marked name ++ rest) tail := by
  rw [IsChecked, List.append_assoc, annotations_marked_iff hchars (endsName_append hends htail),
    codeOf_marked_append]
  apply iff_of_false
  · exact fun h => hname h.1
  · exact fun h => stripAnnotations_of_not_name hchars hends hname h.1

/-- Something other than an annotation. -/
theorem isChecked_of_not_at {g : Glyph} (hblank : isBlank g.char = false) (hat : g.char ≠ '@') :
    IsChecked isOpen (g :: rest) tail := by
  have hstrip : stripAnnotations (codeOf (g :: rest)) = g.char :: codeOf rest :=
    stripAnnotations_eq_self hblank (dropAnnotation?_of_ne hat (codeOf rest))
  apply iff_of_false
  · apply not_annotations_cons hblank
    rintro rfl
    exact hat rfl
  · rintro ⟨hempty, -⟩
    simp [hstrip] at hempty

theorem isChecked_blanks_append {blanks : List Glyph}
    (hblanks : ∀ g ∈ blanks, isBlank g.char = true) (h : IsChecked isOpen row tail) :
    IsChecked isOpen (blanks ++ row) tail := by
  rw [IsChecked, List.append_assoc, annotations_append_blanks hblanks,
    leftOpen_blanks_append hblanks, codeOf_append, stripAnnotations,
    Text.trimStart_append_of_blank (forall_codeOf hblanks)]
  exact h

private theorem not_mem_codeOf {c : Char} (h : c ∉ codeOf row) (hsuffix : rest <:+ row) :
    c ∉ codeOf rest :=
  fun hmem => h ((hsuffix.map Glyph.char).subset hmem)

/-- An annotation at the front, if what is left behind it is checked. -/
theorem isChecked_marked (hchars : ∀ c ∈ name, isAnnotationChar c = true)
    (hends : beginsWith isAnnotationChar (codeOf rest) = false) (htail : EndsRow tail)
    (hreads : CodePlace.code.Reads rest last) (hline : '\n' ∉ codeOf rest)
    (hback : ∀ back, back <:+ rest → CodePlace.code.Reads back last → IsChecked isOpen back tail) :
    IsChecked isOpen (marked name ++ rest) tail := by
  by_cases hname : IsAnnotationName name
  case neg => exact isChecked_of_not_name hchars hname hends htail
  by_cases hparen : beginsWith (· == '(') (codeOf rest).trimStart = true
  case neg =>
    apply isChecked_bare hname hends _ htail
    · exact hback rest (List.suffix_refl rest) hreads
    · simpa using hparen
  obtain ⟨blanks, more, rfl, hblanks, -, htrim⟩ := exists_glyphs_trimStart rest
  rw [← htrim] at hparen
  cases more with
  | nil => simp [codeOf] at hparen
  | cons opening arguments =>
    -- the parenthesis is code, since the reader stands outside literals
    have hchar : opening.char = '(' := by simpa [codeOf] using hparen
    obtain ⟨hshown, harguments⟩ := (hreads.behind_blanks hblanks).of_plain (by rw [hchar]; rfl)
    obtain rfl : opening = .code '(' :=
      (Glyph.shown_eq_iff (by decide)).mp (hshown.trans hchar)
    have hrowBlanks : ∀ g ∈ blanks, g.isRowBlank = true := by
      apply isRowBlank_of_line _ hblanks
      intro hmem
      apply hline
      simp [codeOf_append, hmem]
    apply isChecked_group hname hrowBlanks harguments
    rintro inside behind rfl
    have hsuffix : behind <:+ blanks ++ .code '(' :: (inside ++ .code ')' :: behind) :=
      ⟨blanks ++ .code '(' :: (inside ++ [.code ')']), by simp⟩
    exact hback behind hsuffix harguments.behind_close

/-- **Stripping annotations checks a row.** -/
theorem isChecked_row (htail : EndsRow tail) (hreads : CodePlace.code.Reads row last)
    (hline : '\n' ∉ codeOf row) : IsChecked isOpen row tail := by
  -- on the length, since an annotation is taken off in one go
  induction hlength : row.length using Nat.strongRecOn generalizing row with
  | ind n ih =>
    subst hlength
    obtain ⟨blanks, cells, rfl, hblanks, hsolid, -⟩ := exists_glyphs_trimStart row
    have hcells := hreads.behind_blanks hblanks
    apply isChecked_blanks_append hblanks
    cases cells with
    | nil => exact (and_iff_right rfl).symm
    | cons g cells =>
      by_cases hat : g.char = '@'
      case neg => exact isChecked_of_not_at (hsolid g rfl) hat
      obtain ⟨hshown, hafter⟩ := hcells.of_plain (by rw [hat]; rfl)
      obtain rfl : g = .code '@' := (Glyph.shown_eq_iff (by decide)).mp (hshown.trans hat)
      obtain ⟨name, rest, rfl, hchars, hends⟩ := hafter.exists_name
      have hsuffix : rest <:+ blanks ++ .code '@' :: (name.map Glyph.code ++ rest) :=
        ⟨blanks ++ marked name, by simp [marked]⟩
      apply isChecked_marked hchars hends htail (hcells.behind_marked hchars)
      · exact not_mem_codeOf hline hsuffix
      · intro back hback hreads
        apply ih back.length _ hreads
        · exact not_mem_codeOf hline (hback.trans hsuffix)
        · rfl
        · have := hback.length_le
          simp
          omega

end Row

/-! ## §6 A row behind open parentheses -/

/-- The number of parentheses open after a row that begins with `depth` of them open, if it closes
them and goes on with annotations or does not close them. -/
def rowDepth? (depth : Nat) (row : List Glyph) : Option Nat :=
  match depth with
  | 0 => annotationsOpen? row
  | nested + 1 =>
    match untilClose '(' ')' nested row with
    | some (_, rest) => annotationsOpen? rest
    | none => some (nested + 1 + countCode '(' row - countCode ')' row)

/-- The blanks around glyphs. -/
theorem exists_glyphs_trim (glyphs : List Glyph) :
    ∃ before cells after, glyphs = before ++ (cells ++ after) ∧
      (∀ g ∈ before, isBlank g.char = true) ∧ (∀ g ∈ after, isBlank g.char = true) ∧
        codeOf cells = Text.trim (codeOf glyphs) := by
  obtain ⟨before, rest, rfl, hbefore, -, htrim⟩ := exists_glyphs_trimStart glyphs
  obtain ⟨blanks, htext, hblanks⟩ := Text.exists_trimEnd_append (codeOf rest)
  obtain ⟨cells, after, rfl, hcells, hafter⟩ := List.map_eq_append_iff.mp htext
  refine ⟨before, cells, after, rfl, hbefore, fun g hg => ?_, ?_⟩
  · exact hblanks g.char (hafter ▸ List.mem_map_of_mem hg)
  · rw [Text.trim, ← htrim]
    exact hcells

/-- Text that begins with the keyword of an annotation type, or not with an annotation, is not
stripped. -/
theorem stripAnnotations_ne_nil {text : Text} (hsolid : beginsWith isSolid text = true)
    (h : (!text.startsWith "@" || text.startsWith "@interface") = true) :
    stripAnnotations text ≠ [] := by
  cases text with
  | nil => cases hsolid
  | cons c cs =>
    have hdrop : dropAnnotation? (c :: cs) = none := by
      by_cases hc : c = '@'
      case neg => exact dropAnnotation?_of_ne hc cs
      subst hc
      have hat : Text.startsWith ('@' :: cs) "@" = true := by
        simp [Text.startsWith, Text.after?]
      rw [hat, Bool.not_true, Bool.false_or] at h
      have hinterface : Text.startsWith cs "interface" = true := h
      rw [dropAnnotation?, hinterface]
      rfl
    rw [stripAnnotations_eq_self (by simpa [isSolid] using hsolid) hdrop]
    exact List.cons_ne_nil c cs

/-- What is looked at before annotations are stripped off a row does not change the answer. -/
theorem annotationsOpen?_eq (row : List Glyph) : annotationsOpen? row =
    if stripAnnotations (Text.trim (codeOf row)) = [] then some (leftOpen row) else none := by
  unfold annotationsOpen?
  dsimp only
  split
  case isTrue hempty =>
    -- a blank row has no parentheses
    obtain ⟨before, cells, after, rfl, hbefore, hafter, htrim⟩ := exists_glyphs_trim row
    rw [List.isEmpty_iff.mp hempty] at htrim ⊢
    obtain rfl : cells = [] := List.map_eq_nil_iff.mp htrim
    rw [List.nil_append, leftOpen_blanks_append hbefore]
    exact congrArg some (leftOpen_append_blanks hafter []).symm
  case isFalse hempty =>
    have hsolid := Text.beginsWith_trim (mt List.isEmpty_iff.mpr hempty)
    split
    case isTrue hfirst => exact (if_neg (stripAnnotations_ne_nil hsolid hfirst)).symm
    case isFalse => simp only [List.isEmpty_iff, leftOpen]

section Depth

variable {isOpen : Bool} {depth : Nat} {row tail : List Glyph} {place last : CodePlace}

private theorem annotations_append_iff (hreads : CodePlace.code.Reads row last)
    (hline : '\n' ∉ codeOf row) (htail : EndsRow tail) :
    Annotations isOpen (row ++ tail) ↔
      ∃ next, annotationsOpen? row = some next ∧ Resumes isOpen next tail := by
  obtain ⟨before, cells, after, rfl, hbefore, hafter, htrim⟩ := exists_glyphs_trim row
  obtain ⟨_, hcells, -⟩ := (hreads.behind_blanks hbefore).of_append
  have hchecked : IsChecked isOpen cells (after ++ tail) := by
    refine isChecked_row (htail.blanks_append hafter) hcells fun hmem => hline ?_
    simp [codeOf_append, hmem]
  rw [IsChecked] at hchecked
  rw [annotationsOpen?_eq, ← htrim, List.append_assoc, annotations_append_blanks hbefore,
    List.append_assoc, hchecked, resumes_append_blanks hafter, leftOpen_blanks_append hbefore,
    leftOpen_append_blanks hafter]
  split
  case isTrue hstrip => simp [hstrip]
  case isFalse hstrip => simp [hstrip]

/-- **The check of a row is that of the grammar**: behind the row, the glyphs go on behind as many
parentheses as it returns. -/
theorem resumes_append_iff (hreads : place.Reads row last) (hplace : depth = 0 → place = .code)
    (hline : '\n' ∉ codeOf row) (htail : EndsRow tail) :
    Resumes isOpen depth (row ++ tail) ↔
      ∃ next, rowDepth? depth row = some next ∧ Resumes isOpen next tail := by
  cases depth with
  | zero =>
    obtain rfl := hplace rfl
    exact annotations_append_iff hreads hline htail
  | succ nested =>
    rw [rowDepth?]
    cases hclose : untilClose '(' ')' nested row with
    | none => simp [resumes_append_of_none hclose]
    | some parts =>
      obtain ⟨inside, rest⟩ := parts
      rw [resumes_append_of_some hclose]
      obtain ⟨rfl, -⟩ := untilClose_eq_some_iff.mp hclose
      refine annotations_append_iff hreads.behind_close (fun hmem => hline ?_) htail
      simp [codeOf, List.mem_map.mp hmem]

/-- Annotations that leave nothing open end outside literals. -/
theorem Annotations.last_eq_code {glyphs : List Glyph} (h : Annotations isOpen glyphs)
    (hclosed : isOpen = false) (hreads : CodePlace.code.Reads glyphs last) : last = .code := by
  induction h with
  | nil => exact (Option.some.inj hreads.run).symm
  | blank hblank _ ih => exact ih hclosed (hreads.of_plain (ScanState.isPlain_of_isBlank hblank)).2
  | bare hname _ _ ih => exact ih hclosed (hreads.behind_marked hname.chars)
  | @group _ name blanks inside rest _ _ _ _ ih =>
    refine ih hclosed (@CodePlace.Reads.behind_close .code last
      (marked name ++ (blanks ++ .code '(' :: inside)) rest ?_)
    simpa using hreads
  | openGroup => cases hclosed

theorem Resumes.last_eq_code (h : Resumes false depth row) (hreads : place.Reads row last)
    (hplace : depth = 0 → place = .code) : last = .code := by
  cases depth with
  | zero =>
    obtain rfl := hplace rfl
    exact Annotations.last_eq_code h rfl hreads
  | succ nested =>
    rw [Resumes] at h
    cases hclose : untilClose '(' ')' nested row with
    | none => simp [hclose] at h
    | some parts =>
      rw [hclose] at h
      obtain ⟨rfl, -⟩ := untilClose_eq_some_iff.mp hclose
      exact Annotations.last_eq_code h rfl hreads.behind_close

end Depth

end DeclDocs
