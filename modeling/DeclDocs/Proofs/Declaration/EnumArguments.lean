import DeclDocs.Proofs.Declaration.AnnotatedLine

/-!
# The arguments of enum constants

The arguments of an enum constant are what stands between the parenthesis behind its name and the
one that closes it, character for character.  The rest of the line may be anything: a body, unclosed
literals, comments, further parentheses.  Without a parenthesis in the code there are no arguments.

* `ConstantHead`: the annotations of a constant and its name.
* `exists_untilClose_arguments`: the group of an argument list, whatever follows it.
* `enumArguments_constantHead`: the arguments of a constant.
-/

namespace DeclDocs

open Text (isSolid beginsWith endsIn)

/-! ## §1 The head of a constant -/

/-- The annotations of an enum constant, its name and the blanks behind the name. -/
structure ConstantHead where
  row : DecoratorRow
  name : Identifier
  gap : Padding

namespace ConstantHead

variable (head : ConstantHead)

/-- The name and the blanks behind it. -/
def nameText : Text :=
  head.name.text ++ head.gap.text

/-- The head as it is written. -/
def text : Text :=
  head.row.text ++ head.nameText

private theorem inert_nameText : ∀ c ∈ head.nameText, isInert c = true := by
  intro c hc
  rcases List.mem_append.mp hc with hname | hgap
  · exact head.name.inert c hname
  · exact head.gap.inert c hgap

private theorem plain_nameText : ∀ c ∈ head.nameText, ScanState.isPlain c = true := fun c hc =>
  isPlain_of_isInert (head.inert_nameText c hc)

/-- No parenthesis stands in front of the arguments. -/
theorem shown_nameText_ne : ∀ g ∈ head.nameText.map Glyph.code, g.shown ≠ '(' := by
  intro g hg
  obtain ⟨c, hc, rfl⟩ := List.mem_map.mp hg
  exact Text.ne_of_class (head.inert_nameText c hc) (by decide)

private theorem begins_name : beginsWith isDeclarationStart head.name.text = true :=
  Text.beginsWith_mono (fun c hc => by simp [isDeclarationStart, hc]) head.name.begins

end ConstantHead

/-! ## §2 Argument lists -/

/-- **The group of an argument list** holds the arguments as they are written, whatever code
follows. -/
theorem exists_untilClose_arguments (arguments : Arguments) {rest : Text}
    (hwhole : ScannedWhole rest) :
    ∃ inside, codeOf inside = arguments.text ∧
      untilClose '(' ')' 0 (maskGlyphs (arguments.text ++ ')' :: rest)) =
        some (inside, maskGlyphs rest) := by
  obtain ⟨inside, hclose⟩ := untilClose_arguments arguments hwhole
  refine ⟨inside, ?_, hclose⟩
  -- the mask has one glyph for each character
  have hcode := congrArg codeOf (untilClose_eq_some_iff.mp hclose).1
  have htail : codeOf (.code ')' :: maskGlyphs rest) = ')' :: rest := by
    show ')' :: codeOf (maskGlyphs rest) = _
    rw [codeOf_maskGlyphs]
  rw [codeOf_maskGlyphs, codeOf_append, htail] at hcode
  exact (List.append_cancel_right hcode).symm

/-- No parenthesis is found in text whose mask shows none. -/
theorem cutGlyphs?_eq_none {c : Char} {glyphs : List Glyph} (h : c ∉ glyphs.map Glyph.shown) :
    cutGlyphs? c glyphs = none := by
  rw [← Option.isNone_iff_eq_none, ← Option.not_isSome, Bool.not_eq_true', ← Bool.not_eq_true,
    isSome_cutGlyphs?_iff]
  rintro ⟨glyph, hmem, hshown⟩
  exact h (List.mem_map.mpr ⟨glyph, hmem, hshown⟩)

/-! ## §3 The arguments of a constant -/

/-- The arguments behind the head of a constant. -/
theorem enumArguments_group (head : ConstantHead) (arguments : Arguments) (rest : Text) :
    enumArguments (head.text ++ '(' :: (arguments.text ++ ')' :: rest)) =
      '(' :: (arguments.text ++ [')']) := by
  -- the body of the line is the name and its argument list
  obtain ⟨glyphs, -, hgroup⟩ := arguments.readsAs
  have hbody : ReadsAs (head.nameText ++ '(' :: (arguments.text ++ [')']))
      (head.nameText.map Glyph.code ++ glyphs) :=
    (ReadsAs.of_plain head.plain_nameText).append hgroup
  have hends : endsIn isSolid (head.nameText ++ '(' :: (arguments.text ++ [')'])) = true := by
    have hclosing : endsIn isSolid [')'] = true := by decide
    apply Text.endsIn_append
    rw [← List.cons_append]
    exact Text.endsIn_append hclosing _
  have hline : head.text ++ '(' :: (arguments.text ++ ')' :: rest) =
      head.row.text ++ ((head.nameText ++ '(' :: (arguments.text ++ [')'])) ++ rest) := by
    simp [ConstantHead.text]
  have hbegins : beginsWith isDeclarationStart
      (head.nameText ++ '(' :: (arguments.text ++ [')'])) = true :=
    Text.beginsWith_append (Text.beginsWith_append head.begins_name _) _
  have hstrip := stripAnnotations_memberCode head.row hbody hbegins hends rest
  have hkept : (head.nameText ++ '(' :: (arguments.text ++ [')'])) ++ keptCode rest =
      head.nameText ++ (['('] ++ (arguments.text ++ ')' :: keptCode rest)) := by
    simp
  obtain ⟨inside, hcode, hclose⟩ :=
    exists_untilClose_arguments arguments (scannedWhole_keptCode rest)
  have hopening : ∀ c ∈ ['('], ScanState.isPlain c = true := by decide
  have hmask : maskGlyphs (head.nameText ++ (['('] ++ (arguments.text ++ ')' :: keptCode rest))) =
      head.nameText.map Glyph.code ++
        .code '(' :: maskGlyphs (arguments.text ++ ')' :: keptCode rest) := by
    rw [maskGlyphs_plain head.plain_nameText, maskGlyphs_plain hopening]
    rfl
  rw [enumArguments, hline, hstrip, hkept, hmask, cutGlyphs?_append head.shown_nameText_ne rfl]
  simp only [hclose, hcode]
  rfl

/-- Without a parenthesis in the code of the line. -/
theorem enumArguments_bare (head : ConstantHead) {rest : Text}
    (hrest : (scanLine rest).openParens = 0) : enumArguments (head.text ++ rest) = [] := by
  have hends : endsIn isSolid head.name.text = true :=
    Text.endsIn_of_all head.name.nonempty fun c hc =>
      isSolid_of_isIdentifierChar (head.name.chars c hc)
  have hread : ReadsAs head.name.text (head.name.text.map Glyph.code) :=
    .of_plain fun c hc => isPlain_of_isInert (head.name.inert c hc)
  have hline : head.text ++ rest =
      head.row.text ++ (head.name.text ++ (head.gap.text ++ rest)) := by
    simp [ConstantHead.text, ConstantHead.nameText]
  have hstrip := stripAnnotations_memberCode head.row hread head.begins_name hends
    (head.gap.text ++ rest)
  -- what is kept of the rest shows no parenthesis when it is scanned anew
  have hshown : '(' ∉ (maskGlyphs (keptCode (head.gap.text ++ rest))).map Glyph.shown := by
    intro hmem
    obtain ⟨-, hsub⟩ :=
      shown_maskGlyphs_of_isPrefix (keptCode_isPrefix (head.gap.text ++ rest))
    have hscan : (scanLine (head.gap.text ++ rest)).glyphs =
        head.gap.text.map Glyph.code ++ (scanLine rest).glyphs := by
      rw [scanLine, head.gap.readsAs.scan]
      rfl
    have hgap := hsub.subset hmem
    rw [hscan, List.map_append, map_shown_code, List.mem_append] at hgap
    rcases hgap with hblank | hcode
    · exact absurd (head.gap.blank '(' hblank) (by decide)
    · obtain ⟨g, hg, hparen⟩ := List.mem_map.mp hcode
      have hnone := List.countP_eq_zero.mp hrest g hg
      simp [hparen] at hnone
  have hmask : '(' ∉ (maskGlyphs (head.name.text ++ keptCode (head.gap.text ++ rest))).map
      Glyph.shown := by
    rw [maskGlyphs_plain fun c hc => isPlain_of_isInert (head.name.inert c hc), List.map_append,
      map_shown_code, List.mem_append, not_or]
    refine ⟨fun hname => ?_, hshown⟩
    exact absurd (head.name.chars '(' hname) (by decide)
  rw [enumArguments, hline, hstrip, cutGlyphs?_eq_none hmask]

/-- **The arguments of an enum constant** are recovered as they are written, whatever follows them;
where the rest of the line has no parenthesis outside literals and comments, there are none. -/
theorem enumArguments_constantHead (head : ConstantHead) (rest : Text) :
    (∀ arguments : Arguments,
      enumArguments (head.text ++ '(' :: (arguments.text ++ ')' :: rest)) =
        '(' :: (arguments.text ++ [')'])) ∧
    ((scanLine rest).openParens = 0 → enumArguments (head.text ++ rest) = []) :=
  ⟨fun arguments => enumArguments_group head arguments rest, enumArguments_bare head⟩

/-- A constant behind two annotations. -/
def scarletHead : ConstantHead where
  row := {
    indent := ⟨"\t ", by decide⟩
    parts := [
      { name := "hue.Since"
        isName := ⟨by decide, by decide, by decide⟩
        arguments := some (⟨" ", by decide⟩,
          { text := "v = \"1)//\", w = (2)"
            shown := "v = \"    \", w = (2)"
            shows := by decide
            nested := by decide })
        after := .empty },
      { name := "Warm"
        isName := ⟨by decide, by decide, by decide⟩
        arguments := none
        after := ⟨"  ", by decide⟩ }]
    apart := by decide }
  name := ⟨"SCARLET", by decide, by decide⟩
  gap := ⟨" ", by decide⟩

/-- Arguments with parentheses in literals and outside. -/
def scarletArguments : Arguments where
  text := "rgb(255, '(', f()), \"é) /*\""
  shown := "rgb(255, ' ', f()), \"     \""
  shows := by decide
  nested := by decide

theorem enumArguments_constantHead_scarlet :
    scarletHead.text = "\t @hue.Since (v = \"1)//\", w = (2))@Warm  SCARLET " ∧
    enumArguments (scarletHead.text ++
        '(' :: (scarletArguments.text ++ ')' :: ") \x7b g(); /* ( */ \"")) =
      "(rgb(255, '(', f()), \"é) /*\")" ∧
    (scanLine ", /* (1) */ CRIMSON // (2)").openParens = 0 ∧
    enumArguments (scarletHead.text ++ ", /* (1) */ CRIMSON // (2)") = [] := by
  have hbare : (scanLine ", /* (1) */ CRIMSON // (2)").openParens = 0 := by decide +kernel
  have hgroup : '(' :: (scarletArguments.text ++ [')']) = "(rgb(255, '(', f()), \"é) /*\")" := by
    decide
  refine ⟨by decide, ?_, hbare, (enumArguments_constantHead scarletHead _).2 hbare⟩
  rw [(enumArguments_constantHead scarletHead _).1 scarletArguments]
  exact hgroup

end DeclDocs
