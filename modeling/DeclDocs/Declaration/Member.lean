import DeclDocs.Declaration.Annotation
import DeclDocs.Tag.Table

/-!
# Fields and enum constants

What a single declaration line tells about a field or an enum constant: whether it is a constant,
its type, and the arguments of an enum constant.
-/

namespace DeclDocs

/-- The trimmed code of a declaration line. -/
def memberCode (line : Text) : Text :=
  (scanLine line).code.trim

/-- The line carries both `static` and `final`. -/
def isConstantLine (line : Text) : Bool :=
  let words := (memberCode line).keywords
  words.contains "static" && words.contains "final"

/-- The part of a field declaration in front of its initialiser or its semicolons. -/
def fieldHead (line : Text) : Text :=
  let declaration := stripAnnotations (memberCode line)
  let head := match cutCode? '=' declaration with
    | some (head, _) => head
    | none => declaration
  Text.trimEnd (Text.dropEndWhile (· == ';') (Text.trim head))

/-- The declared type of a field: the word in front of its name, type arguments included. -/
def fieldType (line : Text) : Text :=
  match (typeTokens (fieldHead line)).reverse with
  | _ :: typeName :: _ => typeName
  | _ => unknownType

/-- The arguments of an enum constant, parentheses included.  A list that does not close on the
line runs to its end, commas and semicolons there aside. -/
def enumArguments (line : Text) : Text :=
  match cutGlyphs? '(' (maskGlyphs (stripAnnotations (memberCode line))) with
  | none => []
  | some (_, rest) =>
    match untilClose '(' ')' 0 rest with
    | some (inside, _) => "(" ++ codeOf inside ++ ")"
    | none =>
      let unclosed := Text.trimEnd ('(' :: codeOf rest)
      Text.trimEnd (Text.dropEndWhile (fun c => c == ',' || c == ';') unclosed)

end DeclDocs
