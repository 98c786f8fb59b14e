import DeclDocs.Proofs.Signature.Written

/-!
# The parameters of a written declaration

The parameter list is found behind the leading annotations, cut at its top-level commas, and each
piece gives back the parameter that was written there: annotations and modifiers come off, the last
word is the name and the rest is the type.

* `Signature.parseParameter?_core`: one parameter.
* `Signature.splitTopLevel_parameterText`: the pieces of the list.
* `Signature.parseParameters_text`: all parameters of a declaration.
-/

namespace DeclDocs

open Text (isSolid beginsWith endsIn)

/-! ## §1 One parameter -/

namespace WrittenParameter

variable (parameter : WrittenParameter)

private theorem bare_begins : beginsWith isIdentifierChar parameter.bare = true :=
  Text.beginsWith_append parameter.type.named _

private theorem bare_ends : endsIn isSolid parameter.bare = true := by
  unfold bare
  rw [← List.append_assoc]
  exact Text.endsIn_append parameter.name.squeezed.ends _

/-- The name is the last word of the bare parameter, the type what stands in front of it. -/
theorem cutLastBlank?_bare : ∃ blanks, (∀ c ∈ blanks, isBlank c = true) ∧
    parameter.bare.cutLastBlank? = some (parameter.type.text ++ blanks, parameter.name.text) := by
  obtain ⟨blanks, b, htext, hblanks, hb⟩ := parameter.between.exists_concat
  refine ⟨blanks, hblanks, ?_⟩
  -- the cut falls at the last of the blanks, since the name has none
  have hsolid : ∀ c ∈ parameter.name.text, isSolid c = true := fun c hc =>
    isSolid_of_isIdentifierChar (parameter.name.chars c hc)
  rw [← Text.cutLastBlank?_append hb hsolid, bare, htext]
  simp

private theorem bare_piece : ∃ glyphs, ReadsAsPiece parameter.bare glyphs :=
  ⟨_, (ReadsAsPiece.of_type parameter.type).append
    ((ReadsAsPiece.of_inert parameter.between.inert).append
      (.of_inert parameter.name.inert))⟩

/-- The parameter behind its modifiers can stand between commas. -/
theorem inner_piece : ∃ glyphs,
    ReadsAsPiece (spread Decorator.text parameter.inner ++ parameter.bare) glyphs := by
  obtain ⟨glyphs, hbare⟩ := parameter.bare_piece
  obtain ⟨front, hinner⟩ := ReadsAsPiece.of_spread fun part hpart =>
    ReadsAsPiece.of_decorator
      (parameter.angleFree part (List.mem_append_right parameter.outer hpart))
  exact ⟨_, hinner.append hbare⟩

private theorem words_piece : ∃ glyphs, ReadsAsPiece (spread Subtype.val parameter.words ++
    (spread Decorator.text parameter.inner ++ parameter.bare)) glyphs := by
  obtain ⟨glyphs, hinner⟩ := parameter.inner_piece
  have hword : ∀ part ∈ parameter.words, ∃ glyphs, ReadsAsPiece part.1.val glyphs := by
    intro part _
    have hchars := modifier_chars part.1.val (List.mem_append_right modifiers part.1.property)
    exact ⟨_, .of_inert fun c hc => isInert_of_isModifierChar (hchars.2 c hc)⟩
  obtain ⟨front, hwords⟩ := ReadsAsPiece.of_spread hword
  exact ⟨_, hwords.append hinner⟩

/-- A parameter can stand between commas. -/
theorem text_piece : ∃ glyphs, ReadsAsPiece parameter.text glyphs := by
  obtain ⟨glyphs, hwords⟩ := parameter.words_piece
  obtain ⟨front, houter⟩ := ReadsAsPiece.of_spread fun part hpart =>
    ReadsAsPiece.of_decorator
      (parameter.angleFree part (List.mem_append_left parameter.inner hpart))
  exact ⟨_, (ReadsAsPiece.of_inert parameter.before.inert).append
    ((houter.append hwords).append (.of_inert parameter.after.inert))⟩

private theorem core_begins : beginsWith isSolid parameter.core = true := by
  have hdecorator : ∀ annotations : List (Decorator × Separator),
      ∀ part ∈ annotations, beginsWith isSolid part.1.text = true := fun _ _ _ => rfl
  have hword : ∀ part ∈ parameter.words, beginsWith isSolid part.1.val = true := by
    intro part _
    have hchars := modifier_chars part.1.val (List.mem_append_right modifiers part.1.property)
    exact Text.beginsWith_of_all hchars.1 fun c hc => isSolid_of_isModifierChar (hchars.2 c hc)
  have hbare := Text.beginsWith_mono (fun _ => isSolid_of_isIdentifierChar) parameter.bare_begins
  exact beginsWith_spread (hdecorator _)
    (beginsWith_spread hword (beginsWith_spread (hdecorator _) hbare))

private theorem core_ends : endsIn isSolid parameter.core = true := by
  unfold core
  exact Text.endsIn_append (Text.endsIn_append (Text.endsIn_append parameter.bare_ends _) _) _

private theorem trim_text : parameter.text.trim = parameter.core :=
  Text.trim_surrounded parameter.before.blank parameter.core_begins parameter.core_ends
    parameter.after.blank

/-- Annotations and modifiers come off a parameter, in whichever order they stand. -/
theorem strip_core :
    stripAnnotations (stripWords parameterModifiers (stripAnnotations parameter.core)) =
      parameter.bare := by
  obtain ⟨_, hbarePiece⟩ := parameter.bare_piece
  obtain ⟨_, hinnerPiece⟩ := parameter.inner_piece
  obtain ⟨_, hwordsPiece⟩ := parameter.words_piece
  have hmodifiers : parameterModifiers ⊆ modifiers ++ parameterModifiers :=
    List.subset_append_right ..
  have hbare : beginsWith isDeclarationStart parameter.bare = true :=
    Text.beginsWith_mono (fun _ h => by simp [isDeclarationStart, h]) parameter.bare_begins
  have hsolid := Text.beginsWith_mono (fun _ => isSolid_of_isDeclarationStart) hbare
  have hnone : dropWord? parameterModifiers parameter.bare = none := by
    simpa [bare] using
      dropWord?_type hmodifiers parameter.type parameter.between parameter.name.text
  have hlast := stripAnnotations_spread parameter.inner hbarePiece.scannedWhole hbare
  unfold core
  cases hwords : parameter.words with
  | nil =>
    -- all annotations stand in a row, and the first call takes them all
    have hrow := stripAnnotations_spread (parameter.outer ++ parameter.inner)
      hbarePiece.scannedWhole hbare
    rw [spread_append, List.append_assoc] at hrow
    have hkeep : stripWords parameterModifiers parameter.bare = parameter.bare :=
      stripWords_spread hmodifiers [] hsolid hnone
    have hagain : stripAnnotations parameter.bare = parameter.bare :=
      stripAnnotations_spread [] hbarePiece.scannedWhole hbare
    change stripAnnotations (stripWords parameterModifiers (stripAnnotations
      (spread Decorator.text parameter.outer ++
        (spread Decorator.text parameter.inner ++ parameter.bare)))) = _
    rw [hrow, hkeep, hagain]
  | cons first words =>
    -- each of the three calls takes its own row and stops in front of the next
    rw [← hwords]
    have hbegins : beginsWith isDeclarationStart (spread Subtype.val parameter.words ++
        (spread Decorator.text parameter.inner ++ parameter.bare)) = true := by
      have hchars := modifier_chars first.1.val (List.mem_append_right modifiers first.1.property)
      rw [hwords, spread_cons, List.append_assoc]
      refine Text.beginsWith_append (Text.beginsWith_of_all hchars.1 fun c hc => ?_) _
      exact Bool.or_eq_true_iff.mpr (Or.inl (hchars.2 c hc))
    have hinner : dropWord? parameterModifiers
        (spread Decorator.text parameter.inner ++ parameter.bare) = none := by
      cases parameter.inner with
      | nil => exact hnone
      | cons =>
        have hfront : ∀ c ∈ ([] : Text), isSolid c = true := by simp
        exact dropWord?_eq_none_of_char hmodifiers hfront (by decide) (by decide) _
    have hinnerSolid : beginsWith isSolid
        (spread Decorator.text parameter.inner ++ parameter.bare) = true :=
      beginsWith_spread (fun _ _ => rfl) hsolid
    rw [stripAnnotations_spread parameter.outer hwordsPiece.scannedWhole hbegins,
      stripWords_spread hmodifiers parameter.words hinnerSolid hinner, hlast]

end WrittenParameter

/-- A written parameter is read back. -/
theorem Signature.parseParameter?_core (parameter : WrittenParameter) :
    Signature.parseParameter? parameter.core = some parameter.parameter := by
  obtain ⟨blanks, hblanks, hcut⟩ := parameter.cutLastBlank?_bare
  have hsqueeze : Text.squeeze (parameter.type.text ++ blanks) = parameter.type.text := by
    rw [Text.squeeze, Text.words_append_blank hblanks, ← Text.squeeze,
      Text.squeeze_eq_self parameter.type.squeezed]
  have htype := Text.ne_nil_of_beginsWith parameter.type.named
  unfold Signature.parseParameter?
  dsimp only
  rw [parameter.strip_core, hcut]
  simp [hsqueeze, htype, parameter.name.nonempty, WrittenParameter.parameter]

/-! ## §2 The parameter list -/

/-- Parameters joined by commas: the scanner reads them, and they come apart again at the commas
between them. -/
theorem exists_glyphs_join (parameters : List WrittenParameter) :
    ∃ glyphs, ReadsAs (Text.join [','] (parameters.map WrittenParameter.text)) glyphs ∧
      nests .parens (fun _ => true) (fun _ => true) 0 (glyphs.map Glyph.shown) = true ∧
      ((splitCommas 0 glyphs).map fun piece => (codeOf piece).trim).filter
        (fun piece => !piece.isEmpty) = parameters.map WrittenParameter.core := by
  -- no parameter is dropped as an empty piece
  have hkeep : ∀ parameter : WrittenParameter, parameter.core.isEmpty = false := fun parameter => by
    simpa using Text.ne_nil_of_beginsWith parameter.core_begins
  induction parameters with
  | nil => exact ⟨[], .nil, rfl, rfl⟩
  | cons parameter parameters ih =>
    obtain ⟨front, hfront⟩ := parameter.text_piece
    have hcode : (codeOf front).trim = parameter.core := by
      rw [hfront.code, parameter.trim_text]
    cases parameters with
    | nil =>
      refine ⟨front, by simpa [Text.join] using hfront.toReadsAs, hfront.parens, ?_⟩
      simp [splitCommas_of_nests hfront.groups, hcode, hkeep]
    | cons next parameters =>
      obtain ⟨rest, hread, hparens, hsplit⟩ := ih
      have hcomma : ReadsAs [','] [.code ','] := .of_plain (by decide)
      refine ⟨front ++ .code ',' :: rest, ?_, ?_, ?_⟩
      · rw [List.map_cons, Text.join_cons (by simp)]
        exact hfront.toReadsAs.append (hcomma.append hread)
      · rw [List.map_append, List.map_cons]
        have hrest : nests .parens (fun _ => true) (fun _ => true) 0
            (',' :: rest.map Glyph.shown) = true := hparens
        exact nests_append hfront.parens hrest
      · rw [splitCommas_append_comma hfront.groups, List.map_cons, hcode,
          List.filter_cons_of_pos (by simp [hkeep]), hsplit]
        rfl

namespace WrittenDeclaration

variable (declaration : WrittenDeclaration)

/-- The parameter list with its closing parenthesis reads as nested glyphs. -/
theorem exists_glyphs_list : ∃ glyphs, codeOf glyphs = declaration.parameterText ∧
    nests .parens (fun _ => true) (fun _ => true) 0 (glyphs.map Glyph.shown) = true ∧
    ReadsAs (declaration.parameterText ++ [')']) (glyphs ++ [.code ')']) := by
  obtain ⟨glyphs, hread, hparens, _⟩ := exists_glyphs_join declaration.parameters
  have hclose : ReadsAs [')'] [.code ')'] := .of_plain (by decide)
  exact ⟨glyphs, hread.code, hparens, hread.append hclose⟩

private theorem open_readsAs : ReadsAs (declaration.head ++ ['('])
    ((declaration.head ++ ['(']).map Glyph.code) := by
  refine .of_plain fun c hc => ?_
  rcases List.mem_append.mp hc with h | h
  · exact isPlain_of_isHeadChar (declaration.head_chars c h)
  · rw [List.mem_singleton.mp h]
    decide

/-- The mask behind the annotations: the head is code, and the parameter list nests. -/
theorem maskGlyphs_body : ∃ glyphs, codeOf glyphs = declaration.parameterText ∧
    nests .parens (fun _ => true) (fun _ => true) 0 (glyphs.map Glyph.shown) = true ∧
    ScannedWhole declaration.body ∧
    maskGlyphs declaration.body = declaration.head.map Glyph.code ++
      .code '(' :: (glyphs ++ .code ')' :: maskGlyphs declaration.tail) := by
  obtain ⟨glyphs, hcode, hparens, hread⟩ := declaration.exists_glyphs_list
  -- a comment in the tail would leave the whole declaration unmasked
  have htail : ScannedWhole declaration.tail := .of_commentFree declaration.tailCommentFree
  have hbody : declaration.body =
      (declaration.head ++ ['(']) ++ (declaration.parameterText ++ [')']) ++ declaration.tail := by
    simp [body]
  have hall := declaration.open_readsAs.append hread
  refine ⟨glyphs, hcode, hparens, ?_, ?_⟩
  · rw [hbody]
    exact hall.scannedWhole_append htail
  · rw [hbody, hall.maskGlyphs_append htail]
    simp

theorem stripAnnotations_text : stripAnnotations declaration.text = declaration.body :=
  have ⟨_, _, _, hwhole, _⟩ := declaration.maskGlyphs_body
  stripAnnotations_spread declaration.annotations hwhole (declaration.head_begins _)

end WrittenDeclaration

namespace Signature

/-- The parameter list ends with its own closing parenthesis. -/
theorem parameterText?_text (declaration : WrittenDeclaration) :
    parameterText? declaration.text = some declaration.parameterText := by
  obtain ⟨glyphs, hcode, hparens, _, hmask⟩ := declaration.maskGlyphs_body
  have hhead : ∀ g ∈ declaration.head.map Glyph.code, g.shown ≠ '(' := by
    intro g hg
    obtain ⟨c, hc, rfl⟩ := List.mem_map.mp hg
    exact Text.ne_of_class (declaration.head_chars c hc) (by decide)
  unfold parameterText?
  rw [declaration.stripAnnotations_text, hmask, cutGlyphs?_append hhead rfl]
  dsimp only
  rw [untilClose_append (by decide) hparens rfl]
  dsimp only
  rw [hcode]

theorem splitTopLevel_parameterText (declaration : WrittenDeclaration) :
    splitTopLevel declaration.parameterText =
      declaration.parameters.map WrittenParameter.core := by
  obtain ⟨glyphs, hread, _, hsplit⟩ := exists_glyphs_join declaration.parameters
  have hmask : maskGlyphs declaration.parameterText = glyphs := hread.maskGlyphs_eq
  rw [splitTopLevel, hmask, hsplit]

/-- All parameters are read back, in order. -/
theorem parseParameters_text (declaration : WrittenDeclaration) :
    parseParameters declaration.text =
      declaration.parameters.map WrittenParameter.parameter := by
  unfold parseParameters
  rw [parameterText?_text]
  dsimp only
  rw [splitTopLevel_parameterText, List.filterMap_map]
  have hread : parseParameter? ∘ WrittenParameter.core =
      some ∘ WrittenParameter.parameter := by
    funext parameter
    rw [Function.comp_apply, parseParameter?_core]
    rfl
  rw [hread, List.filterMap_eq_map]

end Signature

end DeclDocs
