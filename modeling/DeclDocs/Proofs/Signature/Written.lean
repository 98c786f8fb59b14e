import DeclDocs.Proofs.Declaration.Stripping
import DeclDocs.Signature.Parse

/-!
# Declarations as they are written

A method's declaration put together from its parts: annotations, modifiers, type parameters, a
return type, the name, the parameters and whatever follows them.  Blanks between the parts are free;
no blank stands between the name and its parameter list.

* `WrittenParameter`: one parameter with its annotations and modifiers.
* `WrittenDeclaration`: the declaration, and `WrittenDeclaration.text` for its text.
* `WrittenDeclaration.signature`: what it declares.
-/

namespace DeclDocs

open Text (isSolid beginsWith endsIn)

/-! ## §1 Parameters -/

/-- A parameter between two commas. -/
structure WrittenParameter where
  before : Padding
  /-- Annotations in front of the modifiers. -/
  outer : List (Decorator × Separator)
  words : List ({word // word ∈ parameterModifiers} × Separator)
  /-- Annotations behind the modifiers. -/
  inner : List (Decorator × Separator)
  type : TypeExpression
  between : Separator
  name : Identifier
  after : Padding
  angleFree : ∀ part ∈ outer ++ inner, part.1.AngleFree

namespace WrittenParameter

/-- The type and the name. -/
def bare (parameter : WrittenParameter) : Text :=
  parameter.type.text ++ (parameter.between.text ++ parameter.name.text)

/-- The parameter without the blanks around it. -/
def core (parameter : WrittenParameter) : Text :=
  spread Decorator.text parameter.outer ++
    (spread Subtype.val parameter.words ++
      (spread Decorator.text parameter.inner ++ parameter.bare))

/-- The parameter as it is written. -/
def text (parameter : WrittenParameter) : Text :=
  parameter.before.text ++ (parameter.core ++ parameter.after.text)

/-- What it declares. -/
def parameter (parameter : WrittenParameter) : Parameter where
  name := parameter.name.text
  typeName := parameter.type.text

end WrittenParameter

/-! ## §2 Declarations -/

/-- A method or constructor up to the end of its parameter list, and what follows. -/
structure WrittenDeclaration where
  annotations : List (Decorator × Separator)
  modifiers : List ({word // word ∈ modifiers} × Separator)
  typeParameters : Option (TypeParameters × Padding)
  /-- Absent for constructors. -/
  returnType : Option (TypeExpression × Separator)
  name : Identifier
  parameters : List WrittenParameter
  /-- What follows the parameter list. -/
  tail : Text
  tailCommentFree : isCommentFree tail = true

namespace WrittenDeclaration

variable (declaration : WrittenDeclaration)

def parameterText : Text :=
  Text.join [','] (declaration.parameters.map WrittenParameter.text)

/-- The return type and the name. -/
def typedName : Text :=
  declaration.returnType.elim [] (fun (type, separator) => type.text ++ separator.text) ++
    declaration.name.text

def typeParameterText : Text :=
  declaration.typeParameters.elim [] fun (parameters, padding) => parameters.text ++ padding.text

/-- What stands between the annotations and the parameter list. -/
def head : Text :=
  spread Subtype.val declaration.modifiers ++
    (declaration.typeParameterText ++ declaration.typedName)

/-- What follows the annotations. -/
def body : Text :=
  declaration.head ++ '(' :: (declaration.parameterText ++ ')' :: declaration.tail)

/-- The declaration as it is written. -/
def text : Text :=
  spread Decorator.text declaration.annotations ++ declaration.body

/-- What it declares: the parameters in order, and the return type unless it is absent or
`void`. -/
def signature : Signature where
  text := declaration.text
  parameters := declaration.parameters.map WrittenParameter.parameter
  returnType := (declaration.returnType.map fun (type, _) => type.text).filter (· ≠ "void")

theorem typedName_begins : beginsWith isIdentifierChar declaration.typedName = true := by
  unfold typedName
  cases declaration.returnType with
  | none => exact declaration.name.begins
  | some part => exact Text.beginsWith_append (Text.beginsWith_append part.1.named _) _

theorem typedName_chars : ∀ c ∈ declaration.typedName, isHeadChar c = true := by
  intro c hc
  have hname : c ∈ declaration.name.text → isHeadChar c = true := fun h =>
    isHeadChar_of_isInert (declaration.name.inert c h)
  unfold typedName at hc
  cases htype : declaration.returnType with
  | none => exact hname (by simpa [htype] using hc)
  | some part =>
    simp only [htype, Option.elim_some, List.mem_append] at hc
    -- of the type, of the blanks behind it, or of the name
    rcases hc with (h | h) | h
    · exact part.1.headChars c h
    · exact isHeadChar_of_isInert (part.2.inert c h)
    · exact hname h

private theorem typeParameterText_chars :
    ∀ c ∈ declaration.typeParameterText, isHeadChar c = true := by
  intro c hc
  unfold typeParameterText at hc
  cases hparameters : declaration.typeParameters with
  | none => simp [hparameters] at hc
  | some part =>
    simp only [hparameters, Option.elim_some, TypeParameters.text, List.cons_append,
      List.mem_cons, List.mem_append, List.not_mem_nil, or_false] at hc
    rcases hc with rfl | (h | rfl) | h
    · decide
    · exact part.1.mem_inside h
    · decide
    · exact isHeadChar_of_isInert (part.2.inert c h)

/-- No quote, slash, parenthesis or brace stands in front of the parameter list. -/
theorem head_chars : ∀ c ∈ declaration.head, isHeadChar c = true := by
  intro c hc
  rcases List.mem_append.mp hc with h | h
  · obtain ⟨part, _, hpart⟩ := List.mem_flatMap.mp h
    rcases List.mem_append.mp hpart with hword | hblank
    · have hchars := modifier_chars part.1.val (List.mem_append_left _ part.1.property)
      exact isHeadChar_of_isInert (isInert_of_isModifierChar (hchars.2 c hword))
    · exact isHeadChar_of_isInert (part.2.inert c hblank)
  · rcases List.mem_append.mp h with h | h
    · exact declaration.typeParameterText_chars c h
    · exact declaration.typedName_chars c h

/-- What follows the modifiers begins with a name or with type parameters. -/
theorem typed_begins (rest : Text) : beginsWith isDeclarationStart
    (declaration.typeParameterText ++ (declaration.typedName ++ rest)) = true := by
  unfold typeParameterText
  cases declaration.typeParameters with
  | none =>
    -- an identifier comes first, of the return type or the name itself
    exact Text.beginsWith_mono (fun _ h => by simp [isDeclarationStart, h])
      (Text.beginsWith_append declaration.typedName_begins rest)
  | some => rfl

theorem head_begins (rest : Text) :
    beginsWith isDeclarationStart (declaration.head ++ rest) = true := by
  have hword : ∀ part ∈ declaration.modifiers,
      beginsWith isDeclarationStart part.1.val = true := by
    intro part _
    have hchars := modifier_chars part.1.val (List.mem_append_left _ part.1.property)
    exact Text.beginsWith_of_all hchars.1 fun c hc =>
      Bool.or_eq_true_iff.mpr (Or.inl (hchars.2 c hc))
  unfold head
  rw [List.append_assoc, List.append_assoc]
  exact beginsWith_spread hword (declaration.typed_begins rest)

end WrittenDeclaration

end DeclDocs
