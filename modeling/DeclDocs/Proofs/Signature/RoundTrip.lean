import DeclDocs.Proofs.Signature.Parameters

/-!
# Reading a declaration gives back what was written

The return type is found in front of the name: everything from the body on is cut off, modifiers and
the declaration's own type parameters come off, and of what stands in front of the parameter list
the last word is the name.  Spaces inside a type stand between angle brackets, so none of them can
be taken for the blank in front of the name.

* `Signature.parseReturnType?_text`: the return type.
* `Signature.parse_written`: the whole signature.
-/

namespace DeclDocs

open Text (isSolid beginsWith endsIn)

/-! ## §1 Names -/

namespace Signature

/-- A character that belongs neither to a name nor to blanks rules a spaced name out. -/
theorem isSpacedName_eq_false {text : Text} {c : Char} (hc : c ∈ text) (hsolid : isSolid c = true)
    (hname : isNameChar c = false) : isSpacedName text = false := by
  cases text with
  | nil => rfl
  | cons d ds =>
    have hblank : isBlank c = false := by simpa [isSolid] using hsolid
    rcases List.mem_cons.mp hc with rfl | hmem
    · simp [isSpacedName, hblank]
    · -- the character is left once the blanks and the name are gone
      have hdrop : c ∈ (Text.trimStart ds).dropWhile isNameChar :=
        Text.mem_dropWhile (Text.mem_dropWhile hmem hblank) hname
      have hall : Text.isBlankText ((Text.trimStart ds).dropWhile isNameChar) = false := by
        rw [Text.isBlankText, List.all_eq_false]
        exact ⟨c, hdrop, by simp [hblank]⟩
      simp [isSpacedName, hall]

private theorem isSpacedName_separator (separator : Separator) (name : Identifier) :
    isSpacedName (separator.text ++ name.text) = true := by
  have hname : ∀ c ∈ name.text, isNameChar c = true := fun c hc =>
    isNameChar_of_isIdentifierChar (name.chars c hc)
  have htake : name.text.takeWhile isNameChar = name.text := List.takeWhile_eq_self_iff.mpr hname
  have hdrop : name.text.dropWhile isNameChar = [] := List.dropWhile_eq_nil_iff.mpr hname
  cases htext : separator.text with
  | nil => exact absurd htext separator.nonempty
  | cons b blanks =>
    have hblank := separator.blank
    rw [htext] at hblank
    -- the first blank is asked for, the others are skipped
    have htrim : Text.trimStart (blanks ++ name.text) = name.text := by
      rw [Text.trimStart_append_of_blank fun c hc => hblank c (List.mem_cons_of_mem _ hc)]
      exact Text.trimStart_eq_self name.squeezed.begins
    simp [isSpacedName, htrim, htake, hdrop, name.nonempty, Text.isBlankText,
      hblank b (List.mem_cons_self ..)]

/-- Without blanks there is no type in front of a name. -/
theorem typeBeforeName?_eq_none {text : Text} (h : ∀ c ∈ text, isSolid c = true) :
    typeBeforeName? text = none := by
  induction text with
  | nil => rfl
  | cons c cs ih =>
    have hspaced : isSpacedName cs = false := by
      cases cs with
      | nil => rfl
      | cons d ds =>
        have hd : isBlank d = false := by simpa [isSolid] using h d (by simp)
        simp [isSpacedName, hd]
    simp [typeBeforeName?, hspaced, ih fun d hd => h d (List.mem_cons_of_mem _ hd)]

/-- The type in front of a name ends where a spaced name follows for the first time. -/
theorem typeBeforeName?_append {front rest : Text} (hne : front ≠ [])
    (hline : ∀ c ∈ front, c ≠ '\n')
    (hinside : ∀ a b, front = a ++ b → b ≠ [] → isSpacedName (b ++ rest) = false)
    (hrest : isSpacedName rest = true) : typeBeforeName? (front ++ rest) = some front := by
  induction front with
  | nil => exact absurd rfl hne
  | cons c cs ih =>
    have hc : c ≠ '\n' := hline c (List.mem_cons_self ..)
    rw [List.cons_append, typeBeforeName?, if_neg hc]
    by_cases hcs : cs = []
    · subst hcs
      rw [List.nil_append, if_pos hrest]
    · -- no spaced name follows inside `front`, so the type goes on
      rw [hinside [c] cs rfl hcs, ih hcs]
      · rfl
      · exact fun d hd => hline d (List.mem_cons_of_mem _ hd)
      · exact fun a b hab hb => hinside (c :: a) b (by rw [hab]; rfl) hb

/-- A blank inside a type is not the one in front of the name: an angle bracket closes behind it. -/
theorem isSpacedName_inside (type : TypeExpression) {a b : Text} (htext : type.text = a ++ b)
    (hne : b ≠ []) (rest : Text) : isSpacedName (b ++ rest) = false := by
  obtain ⟨depth, hnested⟩ := exists_nests_right (htext ▸ type.nested)
  cases b with
  | nil => exact absurd rfl hne
  | cons c cs =>
    have hmem : c ∈ type.text := by
      rw [htext]
      simp
    by_cases hblank : isBlank c = true
    · have hspace : c = ' ' := type.eq_space_of_isBlank hmem hblank
      subst hspace
      -- a space is no character of a type outside angle brackets
      have hrest : depth ≠ 0 ∧ nests .angles isTypeAtom isTypeArgument depth cs = true := by
        rw [nests] at hnested
        by_cases hdepth : depth = 0
        · simp [hdepth, Brackets.angles, Brackets.ofPair, isTypeAtom] at hnested
          exact absurd hnested.1 (by decide)
        · refine ⟨hdepth, ?_⟩
          simpa [hdepth, Brackets.angles, Brackets.ofPair, isTypeArgument] using hnested
      obtain ⟨d, hd, hclose⟩ := exists_closes hrest.2 hrest.1
      have : d = '>' := by simpa [Brackets.angles, Brackets.ofPair] using hclose
      subst this
      exact isSpacedName_eq_false (c := '>') (by simp [hd]) (by decide) (by decide)
    · simp [isSpacedName, hblank]

/-- The return type in front of the name. -/
theorem typeBeforeName?_typedName (declaration : WrittenDeclaration) :
    typeBeforeName? declaration.typedName =
      declaration.returnType.map fun (type, _) => type.text := by
  unfold WrittenDeclaration.typedName
  cases declaration.returnType with
  | none =>
    exact typeBeforeName?_eq_none fun c hc =>
      isSolid_of_isIdentifierChar (declaration.name.chars c hc)
  | some part =>
    obtain ⟨type, separator⟩ := part
    have hline : ∀ c ∈ type.text, c ≠ '\n' := by
      rintro c hc rfl
      exact absurd (type.eq_space_of_isBlank hc (by decide)) (by decide)
    dsimp only [Option.elim_some, Option.map_some]
    rw [List.append_assoc]
    exact typeBeforeName?_append (Text.ne_nil_of_beginsWith type.named) hline
      (fun a b hab hb => isSpacedName_inside type hab hb _)
      (isSpacedName_separator separator declaration.name)

/-! ## §2 Type parameters -/

theorem startsWithCall_name (name : Identifier) (rest : Text) :
    startsWithCall (name.text ++ '(' :: rest) = true := by
  have hname : ∀ c ∈ name.text, isNameChar c = true := fun c hc =>
    isNameChar_of_isIdentifierChar (name.chars c hc)
  have hparen : beginsWith isNameChar ('(' :: rest) = false := by
    rw [Text.beginsWith_cons]
    decide
  have htrim : Text.trimStart ('(' :: rest) = '(' :: rest := rfl
  simp [startsWithCall, Text.takeWhile_append_of_begins hname hparen,
    Text.dropWhile_append_of_begins hname hparen, htrim, name.nonempty]

private theorem startsWithSpacedCall_name (separator : Separator) (name : Identifier)
    (rest : Text) : startsWithSpacedCall (separator.text ++ (name.text ++ '(' :: rest)) = true := by
  cases htext : separator.text with
  | nil => exact absurd htext separator.nonempty
  | cons b blanks =>
    have hblank := separator.blank
    rw [htext] at hblank
    have htrim : Text.trimStart (blanks ++ (name.text ++ '(' :: rest)) =
        name.text ++ '(' :: rest := by
      rw [Text.trimStart_append_of_blank fun c hc => hblank c (List.mem_cons_of_mem _ hc)]
      exact Text.trimStart_eq_self (Text.beginsWith_append name.squeezed.begins _)
    simp [startsWithSpacedCall, htrim, startsWithCall_name, hblank b (List.mem_cons_self ..)]

theorem startsWithTypedCall_append {front rest : Text} (hne : front ≠ [])
    (hfront : ∀ c ∈ front, isTypeChar c = true) (hrest : startsWithSpacedCall rest = true) :
    startsWithTypedCall (front ++ rest) = true := by
  induction front with
  | nil => exact absurd rfl hne
  | cons c cs ih =>
    have hc : isTypeChar c = true := hfront c (List.mem_cons_self ..)
    rw [List.cons_append, startsWithTypedCall, hc, Bool.true_and, Bool.or_eq_true]
    by_cases hcs : cs = []
    · subst hcs
      exact Or.inl hrest
    · exact Or.inr (ih hcs fun d hd => hfront d (List.mem_cons_of_mem _ hd))

private theorem isTypeChar_of_mem (type : TypeExpression) :
    ∀ c ∈ type.text, isTypeChar c = true := by
  intro c hc
  rcases type.mem_text hc with h | rfl | rfl | rfl | rfl
  · simp only [isTypeAtom, Bool.or_eq_true, beq_iff_eq] at h
    rcases h with (((h | rfl) | rfl) | rfl) | rfl
    · simp [isTypeChar, isNameChar_of_isIdentifierChar h]
    all_goals decide
  all_goals decide

/-- Behind type parameters the return type and the name look like a declaration. -/
theorem startsWithDeclaration_typedName (declaration : WrittenDeclaration) (rest : Text) :
    (startsWithCall (declaration.typedName ++ '(' :: rest) ||
      startsWithTypedCall (declaration.typedName ++ '(' :: rest)) = true := by
  unfold WrittenDeclaration.typedName
  cases declaration.returnType with
  | none =>
    rw [Bool.or_eq_true]
    exact Or.inl (startsWithCall_name declaration.name rest)
  | some part =>
    obtain ⟨type, separator⟩ := part
    rw [Bool.or_eq_true]
    refine Or.inr ?_
    dsimp only [Option.elim_some]
    rw [List.append_assoc, List.append_assoc]
    exact startsWithTypedCall_append (Text.ne_nil_of_beginsWith type.named)
      (isTypeChar_of_mem type) (startsWithSpacedCall_name separator declaration.name rest)

/-- Neither the return type nor the name in front of its parenthesis is taken for a modifier. -/
theorem dropWord?_typedName (declaration : WrittenDeclaration) (rest : Text) :
    dropWord? modifiers (declaration.typedName ++ '(' :: rest) = none := by
  have hmodifiers : modifiers ⊆ modifiers ++ parameterModifiers := List.subset_append_left ..
  unfold WrittenDeclaration.typedName
  cases declaration.returnType with
  | none =>
    exact dropWord?_eq_none_of_char hmodifiers
      (fun c hc => isSolid_of_isIdentifierChar (declaration.name.chars c hc))
      (by decide) (by decide) rest
  | some part =>
    obtain ⟨type, separator⟩ := part
    dsimp only [Option.elim_some]
    rw [List.append_assoc, List.append_assoc]
    exact dropWord?_type hmodifiers type separator _

/-- The type parameters of a declaration are taken off. -/
theorem stripTypeParameters_typed (declaration : WrittenDeclaration) (rest : Text) :
    stripTypeParameters
        (declaration.typeParameterText ++ (declaration.typedName ++ '(' :: rest)) =
      declaration.typedName ++ '(' :: rest := by
  have hbegins : beginsWith isIdentifierChar (declaration.typedName ++ '(' :: rest) = true :=
    Text.beginsWith_append declaration.typedName_begins _
  have hsolid := Text.beginsWith_mono (fun _ => isSolid_of_isIdentifierChar) hbegins
  unfold WrittenDeclaration.typeParameterText
  cases declaration.typeParameters with
  | none =>
    dsimp only [Option.elim_none]
    rw [List.nil_append]
    unfold stripTypeParameters
    split
    case h_1 heq =>
      -- neither a type nor a name begins with an angle bracket
      rw [heq, Text.beginsWith_cons] at hbegins
      exact absurd hbegins (by decide)
    case h_2 => rfl
  | some part =>
    obtain ⟨parameters, padding⟩ := part
    -- the section and what follows it up to the parameter list are code
    have hplain : ∀ c ∈ parameters.inside ++ '>' :: (padding.text ++ declaration.typedName),
        ScanState.isPlain c = true := by
      intro c hc
      simp only [List.mem_append, List.mem_cons] at hc
      rcases hc with h | rfl | h | h
      · exact isPlain_of_isHeadChar (parameters.mem_inside h)
      · decide
      · exact isPlain_of_isInert (padding.inert c h)
      · exact isPlain_of_isHeadChar (declaration.typedName_chars c h)
    obtain ⟨glyphs, hmask, hcode⟩ := maskGlyphs_plain_append hplain ('(' :: rest)
    have hclose : untilClose '<' '>' 0 (maskGlyphs
        ((parameters.inside ++ '>' :: (padding.text ++ declaration.typedName)) ++ '(' :: rest)) =
        some (parameters.inside.map Glyph.code,
          (padding.text ++ declaration.typedName).map Glyph.code ++ glyphs) := by
      have hnested : nests (.ofPair '<' '>') isBound isBound 0
          ((parameters.inside.map Glyph.code).map Glyph.shown) = true := by
        rw [map_shown_code]
        exact parameters.nested
      rw [hmask, List.map_append, List.map_cons, List.append_assoc, List.cons_append]
      exact untilClose_append (by decide) hnested rfl _
    have hrest : Text.trimStart (codeOf
        ((padding.text ++ declaration.typedName).map Glyph.code ++ glyphs)) =
        declaration.typedName ++ '(' :: rest := by
      have hfront : codeOf ((padding.text ++ declaration.typedName).map Glyph.code) =
          padding.text ++ declaration.typedName := codeOf_map_code _
      rw [codeOf_append, hfront, hcode, List.append_assoc,
        Text.trimStart_append_of_blank padding.blank, Text.trimStart_eq_self hsolid]
    -- modifiers may follow type parameters, but none stand here
    have hkeep : stripWords modifiers (declaration.typedName ++ '(' :: rest) =
        declaration.typedName ++ '(' :: rest :=
      stripWords_spread (List.subset_append_left ..) [] hsolid
        (dropWord?_typedName declaration rest)
    have htext : parameters.text ++ padding.text ++ (declaration.typedName ++ '(' :: rest) =
        '<' :: ((parameters.inside ++ '>' :: (padding.text ++ declaration.typedName)) ++
          '(' :: rest) := by
      simp [TypeParameters.text]
    dsimp only [Option.elim_some]
    rw [htext, stripTypeParameters, hclose]
    dsimp only
    rw [hrest, if_pos (startsWithDeclaration_typedName declaration rest), hkeep]

/-! ## §3 The return type -/

/-- A brace stands behind the opening parenthesis, if at all. -/
theorem cutCode?_brace {declaration : WrittenDeclaration} {front back : Text}
    (hcut : cutCode? '{' declaration.body = some (front, back)) :
    ∃ rest, front = declaration.head ++ '(' :: rest := by
  have hopen : ∀ c ∈ declaration.head ++ ['('], ScanState.isPlain c = true ∧ c ≠ '{' := by
    intro c hc
    rcases List.mem_append.mp hc with h | h
    · have hchar := declaration.head_chars c h
      exact ⟨isPlain_of_isHeadChar hchar, Text.ne_of_class hchar (by decide)⟩
    · rw [List.mem_singleton.mp h]
      decide
  obtain ⟨glyphs, hmask, hcode⟩ := maskGlyphs_plain_append (fun c hc => (hopen c hc).1)
    (declaration.parameterText ++ ')' :: declaration.tail)
  have hfront : ∀ g ∈ (declaration.head ++ ['(']).map Glyph.code, g.shown ≠ '{' := by
    intro g hg
    obtain ⟨c, hc, rfl⟩ := List.mem_map.mp hg
    exact (hopen c hc).2
  have hbody : declaration.body = (declaration.head ++ ['(']) ++
      (declaration.parameterText ++ ')' :: declaration.tail) := by
    simp [WrittenDeclaration.body]
  rw [cutCode?, hbody, hmask, cutGlyphs?_front hfront, Option.map_map] at hcut
  obtain ⟨found, _, heq⟩ := Option.map_eq_some_iff.mp hcut
  refine ⟨codeOf found.1, ?_⟩
  have hcodes : codeOf ((declaration.head ++ ['(']).map Glyph.code ++ found.1) = front :=
    congrArg Prod.fst heq
  rw [← hcodes, codeOf_append, codeOf_map_code, List.append_assoc]
  rfl

/-- Modifiers come off; trimming reaches the parameter list at most. -/
theorem stripWords_trim_head (declaration : WrittenDeclaration) (rest : Text) :
    stripWords modifiers (Text.trim (declaration.head ++ '(' :: rest)) =
      declaration.typeParameterText ++ (declaration.typedName ++ '(' :: Text.trimEnd rest) := by
  -- the head begins with no blank, and the parenthesis keeps what stands in front of it
  have htrim : Text.trim (declaration.head ++ '(' :: rest) =
      declaration.head ++ '(' :: Text.trimEnd rest := by
    have hbegins := Text.beginsWith_mono (fun _ => isSolid_of_isDeclarationStart)
      (declaration.head_begins ('(' :: rest))
    have hends : endsIn isSolid (declaration.head ++ ['(']) = true :=
      Text.endsIn_append rfl declaration.head
    have := Text.trimEnd_append hends rest
    rw [Text.trim, Text.trimStart_eq_self hbegins]
    simpa using this
  have hsolid := Text.beginsWith_mono (fun _ => isSolid_of_isDeclarationStart)
    (declaration.typed_begins ('(' :: Text.trimEnd rest))
  -- what follows the modifiers is none
  have hnone : dropWord? modifiers (declaration.typeParameterText ++
      (declaration.typedName ++ '(' :: Text.trimEnd rest)) = none := by
    unfold WrittenDeclaration.typeParameterText
    cases declaration.typeParameters with
    | none => exact dropWord?_typedName declaration _
    | some part =>
      exact dropWord?_eq_none_of_char (List.subset_append_left ..)
        (fun _ h => absurd h List.not_mem_nil) (c := '<') (by decide) (by decide) _
  rw [htrim, WrittenDeclaration.head, List.append_assoc, List.append_assoc]
  exact stripWords_spread (List.subset_append_left ..) declaration.modifiers hsolid hnone

/-- Annotations, modifiers and the body come off a declaration; what is left of its parameter list
does not matter. -/
theorem bareDeclaration_text (declaration : WrittenDeclaration) :
    ∃ rest, bareDeclaration declaration.text =
      declaration.typeParameterText ++ (declaration.typedName ++ '(' :: rest) := by
  unfold bareDeclaration
  dsimp only
  rw [declaration.stripAnnotations_text]
  split
  case h_1 _ front _ hcut =>
    -- with a body, the text in front of its brace
    obtain ⟨rest, rfl⟩ := cutCode?_brace hcut
    exact ⟨_, stripWords_trim_head declaration rest⟩
  case h_2 => exact ⟨_, stripWords_trim_head declaration _⟩

/-- The return type is read back; `void` counts as none. -/
theorem parseReturnType?_text (declaration : WrittenDeclaration) :
    parseReturnType? declaration.text = declaration.signature.returnType := by
  obtain ⟨rest, hbare⟩ := bareDeclaration_text declaration
  -- the first parenthesis of code is the one behind the name
  have hplain : ∀ c ∈ declaration.typedName ++ ['('], ScanState.isPlain c = true := by
    intro c hc
    rcases List.mem_append.mp hc with h | h
    · exact isPlain_of_isHeadChar (declaration.typedName_chars c h)
    · rw [List.mem_singleton.mp h]
      decide
  obtain ⟨glyphs, hmask, hcode⟩ := maskGlyphs_plain_append hplain rest
  have hfront : ∀ g ∈ declaration.typedName.map Glyph.code, g.shown ≠ '(' := by
    intro g hg
    obtain ⟨c, hc, rfl⟩ := List.mem_map.mp hg
    exact Text.ne_of_class (declaration.typedName_chars c hc) (by decide)
  have hcut : cutCode? '(' (declaration.typedName ++ '(' :: rest) =
      some (declaration.typedName, rest) := by
    have htext : declaration.typedName ++ '(' :: rest =
        (declaration.typedName ++ ['(']) ++ rest := by simp
    rw [cutCode?, htext, hmask, List.map_append, List.append_assoc, List.map_singleton,
      List.singleton_append, cutGlyphs?_append hfront rfl]
    simp [hcode]
  unfold parseReturnType?
  rw [hbare, stripTypeParameters_typed, hcut]
  dsimp only
  rw [typeBeforeName?_typedName, WrittenDeclaration.signature]
  cases declaration.returnType with
  | none => rfl
  | some part =>
    dsimp only [Option.map_some]
    rw [Text.squeeze_eq_self part.1.squeezed]
    rw [Option.filter_some]
    split <;> simp_all

/-- Reading a written declaration gives back its parameters and its return type. -/
theorem parse_text (declaration : WrittenDeclaration) :
    parse declaration.text = declaration.signature := by
  rw [parse, parseParameters_text, parseReturnType?_text]
  rfl

/-- A written declaration opens a parameter list. -/
theorem hasParameterList_text (declaration : WrittenDeclaration) :
    (cutCode? '(' declaration.text).isSome = true := by
  obtain ⟨glyphs, _, _, hwhole, hmask⟩ := declaration.maskGlyphs_body
  obtain ⟨front, hread⟩ := exists_glyphs_spread .nil .append (·.readsAs)
    fun part (_ : part ∈ declaration.annotations) => part.1.readsAs
  have htext : maskGlyphs declaration.text = front ++ maskGlyphs declaration.body :=
    hread.maskGlyphs_append hwhole
  rw [cutCode?, Option.isSome_map, htext, hmask]
  have hshown : (Glyph.code '(').shown = '(' := rfl
  exact cutGlyphs?_isSome (by simp) hshown

/-- Reading undoes writing: whatever annotations, literals and type arguments surround them, the
parameters come back in order with their types, and so does the return type. -/
theorem parse_written (declaration : WrittenDeclaration) :
    parse declaration.text =
        { text := declaration.text
          parameters := declaration.parameters.map fun parameter =>
            ⟨parameter.name.text, parameter.type.text⟩
          returnType :=
            (declaration.returnType.map fun (type, _) => type.text).filter (· ≠ "void") } ∧
      (parse declaration.text).hasParameterList = true :=
  ⟨parse_text declaration, hasParameterList_text declaration⟩

/-- Literals, nested type arguments and annotations on both sides of a modifier can be written. -/
example : ∃ declaration : WrittenDeclaration, declaration.text =
    ("@A(\"(<,\") public <T> Map<String, List<T>> " ++
      "f(@B(x, ')') final @C int... xs, T t) \x7b").toList :=
  let wide : TypeExpression := ⟨"int...".toList, by decide, by decide, by decide, by decide⟩
  ⟨{ annotations := [(⟨"A".toList, by decide, by decide, by decide,
        some ⟨"\"(<,\"".toList, "\"   \"".toList, by decide, by decide⟩⟩, .space)]
     modifiers := [(⟨"public".toList, by decide⟩, .space)]
     typeParameters := some (⟨"T".toList, by decide⟩, Separator.space.toPadding)
     returnType := some (⟨"Map<String, List<T>>".toList, by decide, by decide, by decide,
        by decide⟩, .space)
     name := ⟨"f".toList, by decide, by decide⟩
     parameters :=
      [{ before := .empty
         outer := [(⟨"B".toList, by decide, by decide, by decide,
           some ⟨"x, ')'".toList, "x, ' '".toList, by decide, by decide⟩⟩, .space)]
         words := [(⟨"final".toList, by decide⟩, .space)]
         inner := [(⟨"C".toList, by decide, by decide, by decide, none⟩, .space)]
         type := wide, between := .space
         name := ⟨"xs".toList, by decide, by decide⟩, after := .empty
         angleFree := by decide },
       { before := Separator.space.toPadding, outer := [], words := [], inner := []
         type := ⟨"T".toList, by decide, by decide, by decide, by decide⟩, between := .space
         name := ⟨"t".toList, by decide, by decide⟩, after := .empty, angleFree := by simp }]
     tail := " \x7b".toList
     tailCommentFree := by decide }, by decide⟩

end Signature

end DeclDocs
