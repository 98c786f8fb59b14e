import DeclDocs.Proofs.Signature.RoundTrip
import DeclDocs.Proofs.Signature.Search
import DeclDocs.Proofs.Text.Lines

/-!
# Declarations on one line

A declaration written on one line with single spaces.  The search for the end of its parameter list
stops at the closing parenthesis, whatever the limit on the number of lines, and what it has read is
the declaration itself.

* `PlainDeclaration`: such a declaration, with `PlainDeclaration.text` and
  `PlainDeclaration.signature`.
* `PlainDeclaration.extractSignature_eq`: the declaration is found on its line.
* `PlainDeclaration.parse_text`: it declares what is written.
-/

namespace DeclDocs

open Text (isSolid beginsWith endsIn IsSqueezed)

/-! ## §1 Plain declarations -/

/-- Modifiers, a return type unless it is a constructor, a name and parameters. -/
structure PlainDeclaration where
  modifiers : List {word // word ∈ modifiers}
  returnType : Option TypeExpression
  name : Identifier
  parameters : List (TypeExpression × Identifier)

namespace PlainDeclaration

variable (declaration : PlainDeclaration)

/-- The words in front of the parameter list. -/
def front : Text :=
  Text.join [' '] (declaration.modifiers.map Subtype.val ++
    ((declaration.returnType.map TypeExpression.text).toList ++ [declaration.name.text]))

/-- `T1 p1, ..., Tn pn`. -/
def parameterText : Text :=
  Text.join ", " (declaration.parameters.map fun (type, name) => type.text ++ ' ' :: name.text)

/-- `modifiers type name(T1 p1, ..., Tn pn)`. -/
def text : Text :=
  declaration.front ++ '(' :: (declaration.parameterText ++ [')'])

/-- The declared return type, absent for constructors and for `void`. -/
def resultType : Option Text :=
  (declaration.returnType.map TypeExpression.text).filter (· ≠ "void")

/-- What it declares. -/
def signature : Signature where
  text := declaration.text
  parameters := declaration.parameters.map fun (type, name) => ⟨name.text, type.text⟩
  returnType := declaration.resultType

end PlainDeclaration

/-! ## §2 As a declaration with free blanks -/

theorem join_spread_space {α : Type} (text : α → Text) (words : List α) {rest : List Text}
    (hrest : rest ≠ []) :
    spread text (words.map (·, .space)) ++ Text.join [' '] rest =
      Text.join [' '] (words.map text ++ rest) := by
  induction words with
  | nil => rfl
  | cons word words ih =>
    rw [List.map_cons, List.map_cons, List.cons_append, Text.join_cons (by simp [hrest]), ← ih,
      spread_cons]
    simp [Separator.space]

private theorem join_comma_space (first : Text) (rest : List Text) :
    Text.join [','] (first :: rest.map (' ' :: ·)) = Text.join ", " (first :: rest) := by
  induction rest generalizing first with
  | nil => rfl
  | cons second rest ih =>
    -- the space in front of the second piece comes out of the join
    have hcomma : Text.join [','] ((' ' :: second) :: rest.map (' ' :: ·)) =
        ' ' :: Text.join ", " (second :: rest) := by
      rw [← ih]
      exact Text.join_prepend [','] [' '] second _
    rw [List.map_cons, Text.join_cons (List.cons_ne_nil _ _), Text.join_cons (List.cons_ne_nil _ _),
      hcomma]
    rfl

namespace PlainDeclaration

/-- A parameter behind the given blanks. -/
def writtenParameter (before : Padding) (parameter : TypeExpression × Identifier) :
    WrittenParameter where
  before := before
  outer := []
  words := []
  inner := []
  type := parameter.1
  between := .space
  name := parameter.2
  after := .empty
  angleFree := by simp

private theorem text_writtenParameter (before : Padding) (parameter : TypeExpression × Identifier) :
    (writtenParameter before parameter).text =
      before.text ++ (parameter.1.text ++ ' ' :: parameter.2.text) := by
  simp [writtenParameter, WrittenParameter.text, WrittenParameter.core, WrittenParameter.bare,
    spread, Separator.space, Padding.empty]

/-- All parameters but the first have a space in front of them. -/
def writtenParameters : List (TypeExpression × Identifier) → List WrittenParameter
  | [] => []
  | first :: rest =>
    writtenParameter .empty first :: rest.map (writtenParameter Separator.space.toPadding)

variable (declaration : PlainDeclaration)

/-- The declaration with single spaces in the place of its blanks. -/
def written : WrittenDeclaration where
  annotations := []
  modifiers := declaration.modifiers.map (·, .space)
  typeParameters := none
  returnType := declaration.returnType.map (·, .space)
  name := declaration.name
  parameters := writtenParameters declaration.parameters
  tail := []
  tailCommentFree := rfl

private theorem head_written : declaration.written.head = declaration.front := by
  have htyped : declaration.written.typedName = Text.join [' ']
      ((declaration.returnType.map TypeExpression.text).toList ++ [declaration.name.text]) := by
    unfold WrittenDeclaration.typedName written
    cases declaration.returnType with
    | none => simp
    | some type => simp [Text.join_cons, Separator.space]
  rw [WrittenDeclaration.head, htyped, front, ← join_spread_space Subtype.val _ (by simp)]
  rfl

private theorem parameterText_written :
    declaration.written.parameterText = declaration.parameterText := by
  unfold WrittenDeclaration.parameterText PlainDeclaration.parameterText written
  dsimp only
  cases declaration.parameters with
  | nil => rfl
  | cons first rest =>
    -- the space behind each comma belongs to the parameter that follows
    have hrest : (rest.map (writtenParameter Separator.space.toPadding)).map WrittenParameter.text =
        (rest.map fun (type, name) => type.text ++ ' ' :: name.text).map (' ' :: ·) := by
      rw [List.map_map, List.map_map]
      exact List.map_congr_left fun parameter _ => text_writtenParameter _ parameter
    rw [writtenParameters, List.map_cons, List.map_cons, text_writtenParameter, hrest]
    exact join_comma_space _ _

theorem text_written : declaration.written.text = declaration.text := by
  rw [WrittenDeclaration.text, WrittenDeclaration.body, head_written, parameterText_written]
  rfl

private theorem signature_written : declaration.written.signature = declaration.signature := by
  have hparameters : declaration.written.parameters.map WrittenParameter.parameter =
      declaration.parameters.map fun (type, name) => ⟨name.text, type.text⟩ := by
    unfold written
    dsimp only
    cases declaration.parameters with
    | nil => rfl
    | cons first rest =>
      rw [writtenParameters, List.map_cons, List.map_cons, List.map_map]
      rfl
  rw [WrittenDeclaration.signature, signature, text_written, hparameters, resultType]
  unfold written
  cases declaration.returnType <;> rfl

/-- Reading the declaration gives back its parameters and its return type. -/
theorem parse_text : Signature.parse declaration.text = declaration.signature := by
  rw [← text_written, Signature.parse_text, signature_written]

theorem hasParameterList_signature : declaration.signature.hasParameterList = true := by
  rw [Signature.hasParameterList, signature, ← text_written]
  exact Signature.hasParameterList_text declaration.written

end PlainDeclaration

/-! ## §3 Finding the end of the parameter list -/

/-- A character that neither the scanner nor the search for the end of the parameter list takes
notice of. -/
def isUnnoticed (c : Char) : Bool :=
  ScanState.isPlain c && !(['@', '(', ')'].contains c)

theorem isUnnoticed_of_isInert {c : Char} (h : isInert c = true) : isUnnoticed c = true := by
  have hne : ∀ d, isInert d = false → c ≠ d := fun d => Text.ne_of_class h
  simp [isUnnoticed, isPlain_of_isInert h, hne '@' (by decide), hne '(' (by decide),
    hne ')' (by decide)]

/-- Characters outside annotations are passed over. -/
theorem ParenWatch.readLine_unnoticed {watch : ParenWatch} (hwatch : watch.annotation = .outside)
    {front : Text} (hfront : ∀ c ∈ front, isUnnoticed c = true) (rest : List Glyph) :
    watch.readLine (front.map Glyph.code ++ rest) =
      (front.map Glyph.code ++ (watch.readLine rest).1, (watch.readLine rest).2) := by
  induction front with
  | nil => rfl
  | cons c front ih =>
    have hc := hfront c (List.mem_cons_self ..)
    have hstep : watch.step c = some watch := by
      simp only [isUnnoticed, Bool.and_eq_true, Bool.not_eq_true', List.contains_eq_mem,
        decide_eq_false_iff_not, List.mem_cons, List.not_mem_nil, or_false, not_or] at hc
      obtain ⟨_, hat, hopen, hclose⟩ := hc
      obtain ⟨place, depth, opened⟩ := watch
      simp only at hwatch
      subst hwatch
      simp [step, stepOutside, hat, hopen, hclose]
    rw [List.map_cons, List.cons_append, readLine_cons hstep,
      ih fun d hd => hfront d (List.mem_cons_of_mem _ hd)]
    rfl

/-- The search ends behind the parameter list. -/
theorem ParenWatch.readLine_parameterList {front inside : Text}
    (hfront : ∀ c ∈ front, isUnnoticed c = true) (hinside : ∀ c ∈ inside, isUnnoticed c = true)
    (rest : List Glyph) :
    ParenWatch.readLine {} ((front ++ '(' :: (inside ++ [')'])).map Glyph.code ++ rest) =
      ((front ++ '(' :: (inside ++ [')'])).map Glyph.code, none) := by
  -- behind the opening parenthesis the first closing one ends the search
  have hopened : ({ depth := 1, opened := true } : ParenWatch).readLine
      (inside.map Glyph.code ++ (Glyph.code ')' :: rest)) =
        (inside.map Glyph.code ++ [Glyph.code ')'], none) :=
    readLine_unnoticed rfl hinside _
  have hlist : ParenWatch.readLine {} (Glyph.code '(' ::
      (inside.map Glyph.code ++ (Glyph.code ')' :: rest))) =
        (Glyph.code '(' :: (inside.map Glyph.code ++ [Glyph.code ')']), none) := by
    have hstep : ParenWatch.step {} (Glyph.code '(').shown = some { depth := 1, opened := true } :=
      rfl
    rw [readLine_cons hstep, hopened]
  have houtside : ParenWatch.annotation {} = .outside := rfl
  have := readLine_unnoticed houtside hfront
    (Glyph.code '(' :: (inside.map Glyph.code ++ (Glyph.code ')' :: rest)))
  rw [hlist] at this
  simpa using this

namespace PlainDeclaration

variable (declaration : PlainDeclaration)

theorem isUnnoticed_type (type : TypeExpression) : ∀ c ∈ type.text, isUnnoticed c = true := by
  intro c hc
  rcases type.mem_text hc with h | rfl | rfl | rfl | rfl
  · exact isUnnoticed_of_isInert (isInert_of_isTypeAtom h)
  all_goals decide

theorem isUnnoticed_name (name : Identifier) : ∀ c ∈ name.text, isUnnoticed c = true := fun c hc =>
  isUnnoticed_of_isInert (name.inert c hc)

private theorem isUnnoticed_front : ∀ c ∈ declaration.front, isUnnoticed c = true := by
  intro c hc
  rcases Text.mem_join hc with h | ⟨piece, hpiece, hmem⟩
  · rw [List.mem_singleton.mp h]
    decide
  · simp only [List.mem_append, List.mem_map, Option.mem_toList,
      Option.map_eq_some_iff, List.mem_singleton] at hpiece
    rcases hpiece with ⟨word, _, rfl⟩ | ⟨type, _, rfl⟩ | rfl
    · have hchars := modifier_chars word.val (List.mem_append_left _ word.property)
      exact isUnnoticed_of_isInert (isInert_of_isModifierChar (hchars.2 c hmem))
    · exact isUnnoticed_type type c hmem
    · exact isUnnoticed_name declaration.name c hmem

private theorem isUnnoticed_parameterText :
    ∀ c ∈ declaration.parameterText, isUnnoticed c = true := by
  intro c hc
  rcases Text.mem_join hc with h | ⟨piece, hpiece, hmem⟩
  · have hall : ∀ c ∈ ", ".toList, isUnnoticed c = true := by decide
    exact hall c h
  · obtain ⟨⟨type, name⟩, _, rfl⟩ := List.mem_map.mp hpiece
    rcases List.mem_append.mp hmem with h | h
    · exact isUnnoticed_type type c h
    · rcases List.mem_cons.mp h with rfl | h
      · decide
      · exact isUnnoticed_name name c h

/-- The declaration has single spaces only. -/
theorem squeezed : IsSqueezed declaration.text := by
  have hfront : IsSqueezed declaration.front := by
    have hmark : ∀ c ∈ ([] : Text), isSolid c = true := by simp
    refine IsSqueezed.join hmark (by simp) fun piece hpiece => ?_
    simp only [List.mem_append, List.mem_map, Option.mem_toList,
      Option.map_eq_some_iff, List.mem_singleton] at hpiece
    rcases hpiece with ⟨word, _, rfl⟩ | ⟨type, _, rfl⟩ | rfl
    · have hchars := modifier_chars word.val (List.mem_append_left _ word.property)
      exact .of_solid hchars.1 fun c hc => isSolid_of_isModifierChar (hchars.2 c hc)
    · exact type.squeezed
    · exact declaration.name.squeezed
  have hopen : IsSqueezed ['('] := .of_solid (by simp) (by decide)
  have hclose : IsSqueezed [')'] := .of_solid (by simp) (by decide)
  have hlist : IsSqueezed ('(' :: (declaration.parameterText ++ [')'])) := by
    by_cases hnil : declaration.parameters = []
    · rw [parameterText, hnil]
      exact hopen.append hclose
    · refine hopen.append (IsSqueezed.append ?_ hclose)
      have hmark : ∀ c ∈ [','], isSolid c = true := by decide
      refine IsSqueezed.join hmark (by simpa using hnil) ?_
      intro piece hpiece
      obtain ⟨⟨type, name⟩, _, rfl⟩ := List.mem_map.mp hpiece
      exact type.squeezed.append_space name.squeezed
  exact hfront.append hlist

/-- The declaration is found on its line, however many lines may be read. -/
theorem extractSignature_eq {line : Text} (h : Indented (declaration.text ++ " \x7b") line)
    (above below : List Text) (maxLines : Nat) :
    extractSignature (above ++ line :: below) above.length maxLines = .ok declaration.text := by
  obtain ⟨blanks, hblanks, rfl⟩ := h
  -- the whole line is code
  have hplain : ∀ c ∈ blanks ++ (declaration.text ++ " \x7b".toList),
      ScanState.isPlain c = true := by
    have hunnoticed : ∀ {c}, isUnnoticed c = true → ScanState.isPlain c = true := fun hc =>
      (Bool.and_eq_true_iff.mp hc).1
    intro c hc
    simp only [PlainDeclaration.text, List.mem_append, List.mem_cons, List.not_mem_nil,
      or_false] at hc
    rcases hc with h | (h | rfl | h | rfl) | h
    · exact ScanState.isPlain_of_isBlank (hblanks c h).1
    · exact hunnoticed (declaration.isUnnoticed_front c h)
    · decide
    · exact hunnoticed (declaration.isUnnoticed_parameterText c h)
    · decide
    · have hall : ∀ c ∈ " \x7b".toList, ScanState.isPlain c = true := by decide
      exact hall c h
  have hindent : ∀ c ∈ blanks ++ declaration.front, isUnnoticed c = true := by
    intro c hc
    rcases List.mem_append.mp hc with h | h
    · exact isUnnoticed_of_isInert (isInert_of_isBlank (hblanks c h).1)
    · exact declaration.isUnnoticed_front c h
  have hscan : (ScanState.scan {} (blanks ++ (declaration.text ++ " \x7b".toList))).glyphs =
      (blanks ++ declaration.text).map Glyph.code ++ " \x7b".toList.map Glyph.code := by
    have := (ReadsAs.of_plain hplain).scan []
    rw [List.append_nil] at this
    rw [this, ← List.map_append, List.append_assoc]
    exact List.append_nil _
  have hread := ParenWatch.readLine_parameterList hindent declaration.isUnnoticed_parameterText
    (" \x7b".toList.map Glyph.code)
  rw [List.append_assoc] at hread
  -- at least the line itself is read
  have hwindow : ∃ rest, ((above ++ (blanks ++ (declaration.text ++ " \x7b".toList)) :: below).drop
      above.length).take (max 1 maxLines) =
        (blanks ++ (declaration.text ++ " \x7b".toList)) :: rest := by
    obtain ⟨n, hn⟩ : ∃ n, max 1 maxLines = n + 1 := ⟨max 1 maxLines - 1, by omega⟩
    rw [List.drop_left, hn, List.take_succ_cons]
    exact ⟨_, rfl⟩
  obtain ⟨rest, hwindow⟩ := hwindow
  -- the brace lies behind the end of the search
  have hparts : signatureParts {} {} ((blanks ++ (declaration.text ++ " \x7b".toList)) :: rest) =
      [blanks ++ declaration.text] := by
    have htext : blanks ++ (declaration.front ++ '(' :: (declaration.parameterText ++ [')'])) =
        blanks ++ declaration.text := rfl
    rw [htext] at hread
    rw [signatureParts, hscan, hread]
    dsimp only
    rw [codeOf_map_code]
  have hsqueeze : Text.squeeze (blanks ++ declaration.text) = declaration.text := by
    rw [Text.squeeze, Text.words_blank_append fun c hc => (hblanks c hc).1]
    exact Text.squeeze_eq_self declaration.squeezed
  rw [extractSignature_eq_ok (by simp), hwindow, hparts, Text.join_singleton, hsqueeze]

end PlainDeclaration

end DeclDocs
