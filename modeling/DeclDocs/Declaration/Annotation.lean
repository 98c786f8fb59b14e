import DeclDocs.Lexical.Mask
import DeclDocs.Text.WordChar

/-!
# Annotations in front of a declaration

`@Name`, `@a.b.Name` and `@Name(arguments)` may stand in front of a declaration or a parameter.
`@interface` declares a type and is no annotation.  An argument list that never closes takes the
rest of the text with it.
-/

namespace DeclDocs

/-- A character of an annotation's dotted name. -/
def isAnnotationChar (c : Char) : Bool :=
  isIdentifierChar c || c == '.'

/-- What follows the annotation at the beginning of the text, without leading blanks. -/
def dropAnnotation? (text : Text) : Option Text :=
  match text with
  | '@' :: cs =>
    if Text.startsWith cs "interface" || (cs.takeWhile isAnnotationChar).isEmpty then none
    else
      match Text.trimStart (cs.dropWhile isAnnotationChar) with
      | '(' :: arguments =>
        match untilClose '(' ')' 0 (maskGlyphs arguments) with
        | some (_, rest) => some (Text.trimStart (codeOf rest))
        | none => some []
      | rest => some rest
  | _ => none

/-- The text without the blanks and annotations in front of it. -/
def stripAnnotations (text : Text) : Text :=
  Text.strip dropAnnotation? text.trimStart

end DeclDocs
