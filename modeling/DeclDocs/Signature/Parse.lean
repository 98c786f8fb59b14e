import DeclDocs.Signature.Basic
import DeclDocs.Declaration.Annotation
import DeclDocs.Declaration.Modifier

/-!
# Reading a signature

The parameters come from the first parenthesised group after the leading annotations, split at its
top-level commas.  The return type is what stands in front of the name and the opening
parenthesis, once annotations, modifiers and a method's own type parameters are gone.

* `Signature.parse`: the signature of a declaration text.
-/

namespace DeclDocs

namespace Signature

/-! ## §1 Parameters -/

/-- A parameter from the text between two commas: the last word is the name, what stands in front
of it the type. -/
def parseParameter? (piece : Text) : Option Parameter :=
  let bare := stripAnnotations (stripWords parameterModifiers (stripAnnotations piece))
  match bare.cutLastBlank? with
  | none => none
  | some (typeText, name) =>
    let typeName := Text.squeeze typeText
    if typeName.isEmpty || name.isEmpty then none else some ⟨name, typeName⟩

/-- The text inside the first parenthesised group after the leading annotations; a group that
never closes runs to the end. -/
def parameterText? (text : Text) : Option Text :=
  match cutGlyphs? '(' (maskGlyphs (stripAnnotations text)) with
  | none => none
  | some (_, rest) =>
    match untilClose '(' ')' 0 rest with
    | some (inside, _) => some (codeOf inside)
    | none => some (codeOf rest)

/-- The parameters of a declaration. -/
def parseParameters (text : Text) : List Parameter :=
  match parameterText? text with
  | none => []
  | some inside => (splitTopLevel inside).filterMap parseParameter?

/-! ## §2 Return type -/

/-- The text is blanks, a name and more blanks, with at least one blank in front of the name. -/
def isSpacedName (text : Text) : Bool :=
  match text with
  | [] => false
  | c :: cs =>
    let name := Text.trimStart cs
    isBlank c && !(name.takeWhile isNameChar).isEmpty &&
      Text.isBlankText (name.dropWhile isNameChar)

/-- The shortest non-empty beginning of the text, on one line, that a spaced name follows to the
end. -/
def typeBeforeName? : Text → Option Text
  | [] => none
  | c :: cs =>
    if c = '\n' then none
    else if isSpacedName cs then some [c]
    else (typeBeforeName? cs).map (c :: ·)

/-- The text begins with a name and an opening parenthesis. -/
def startsWithCall (text : Text) : Bool :=
  !(text.takeWhile isNameChar).isEmpty &&
    (Text.trimStart (text.dropWhile isNameChar)).head? == some '('

/-- A character of a type in front of a method's name. -/
def isTypeChar (c : Char) : Bool :=
  isNameChar c || ['.', '[', ']', '<', '>', '?', ',', ' '].contains c

/-- The text begins with blanks, a name and an opening parenthesis. -/
def startsWithSpacedCall (text : Text) : Bool :=
  match text with
  | [] => false
  | c :: cs => isBlank c && startsWithCall (Text.trimStart cs)

/-- The text begins with a type, blanks, a name and an opening parenthesis. -/
def startsWithTypedCall : Text → Bool
  | [] => false
  | c :: cs => isTypeChar c && (startsWithSpacedCall cs || startsWithTypedCall cs)

/-- The text without type parameters in front of it, if a declaration follows them. -/
def stripTypeParameters (text : Text) : Text :=
  match text with
  | '<' :: inner =>
    match untilClose '<' '>' 0 (maskGlyphs inner) with
    | none => text
    | some (_, rest) =>
      let declaration := Text.trimStart (codeOf rest)
      if startsWithCall declaration || startsWithTypedCall declaration then
        stripWords modifiers declaration
      else text
  | _ => text

/-- The declaration in front of its body, without annotations and modifiers. -/
def bareDeclaration (text : Text) : Text :=
  let declaration := stripAnnotations text
  let head := match cutCode? '{' declaration with
    | some (head, _) => head
    | none => declaration
  stripWords modifiers (Text.trim head)

/-- The declared return type, absent for constructors and for `void`. -/
def parseReturnType? (text : Text) : Option Text :=
  match cutCode? '(' (stripTypeParameters (bareDeclaration text)) with
  | none => none
  | some (head, _) =>
    match typeBeforeName? head with
    | none => none
    | some typeText =>
      let typeName := Text.squeeze typeText
      if typeName = "void" then none else some typeName

/-- The signature of a declaration text. -/
def parse (text : Text) : Signature where
  text := text
  parameters := parseParameters text
  returnType := parseReturnType? text

end Signature

end DeclDocs
