import DeclDocs.Signature.Basic
import DeclDocs.Tag.Block
import DeclDocs.Text.WordChar

/-!
# Tag tables

The tags of a comment by meaning.  Parameter and return types come from the signature that the
comment documents; a comment without one (a type's comment) knows neither.  Of the tags that may
stand only once the last one counts.
-/

namespace DeclDocs

/-- The type of a documented type parameter. -/
def typeParameterType : Text := "type-parameter"

/-- The type of a parameter that the signature does not have. -/
def unknownType : Text := "unknown"

/-- A documented parameter. -/
structure ParamTag where
  name : Text
  typeName : Text
  description : Text
deriving DecidableEq, Repr

/-- A documented result. -/
structure ReturnTag where
  typeName : Text
  description : Text
deriving DecidableEq, Repr

/-- A documented exception. -/
structure ThrowsTag where
  exception : Text
  description : Text
deriving DecidableEq, Repr

/-- The tags of one comment. -/
structure TagTable where
  params : List ParamTag := []
  returns : Option ReturnTag := none
  throws : List ThrowsTag := []
  since : Option Text := none
  author : Option Text := none
  deprecated : Option Text := none
  doc : Option Text := none
  sample : Option Text := none
  see : List Text := []
deriving DecidableEq, Repr

/-- The tag documents a type parameter. -/
def ParamTag.isTypeParameter (tag : ParamTag) : Bool :=
  tag.typeName == typeParameterType

namespace TagTable

/-- No tag is present. -/
def isEmpty (table : TagTable) : Bool :=
  table == {}

/-- The first tag for the parameter called `name`. -/
def param? (table : TagTable) (name : Text) : Option ParamTag :=
  table.params.find? fun tag => tag.name == name

/-! ## Reading blocks -/

/-- The first word of the text and the trimmed rest. -/
def firstWord (text : Text) : Text × Text :=
  match text.trim.cutBlank? with
  | some (word, rest) => (word, rest.trim)
  | none => (text.trim, [])

/-- The trimmed text, unless nothing is left of it. -/
def nonEmpty? (text : Text) : Option Text :=
  if text.trim.isEmpty then none else some text.trim

/-- The name stands in angle brackets. -/
def isTypeParameterName (name : Text) : Bool :=
  name.head? == some '<' && name.getLast? == some '>'

/-- The tag of a `param` block; a block without a name gives none. -/
def paramTag? (signature : Option Signature) (content : Text) : Option ParamTag :=
  let (name, description) := firstWord content
  if name.isEmpty then none
  else
    let typeName :=
      if isTypeParameterName name then typeParameterType
      else (signature.bind fun signature => signature.typeOf? name).getD unknownType
    some ⟨name, typeName, description⟩

/-- A character of an exception's dotted name. -/
def isExceptionChar (c : Char) : Bool :=
  isAlphanumeric c || c == '_' || c == '.' || c == '$'

/-- The tag of a `throws` block; without a leading name the whole content is the description. -/
def throwsTag (content : Text) : ThrowsTag :=
  let (word, description) := firstWord content
  let exception := word.takeWhile isExceptionChar
  if exception.isEmpty then ⟨unknownType, content⟩ else ⟨exception, description⟩

/-- The table with a further block. -/
def add (signature : Option Signature) (table : TagTable) (block : TagBlock) : TagTable :=
  match block.kind with
  | .param => { table with params := table.params ++ (paramTag? signature block.content).toList }
  | .returns =>
    match signature.bind Signature.returnType with
    | some typeName => { table with returns := some ⟨typeName, block.content⟩ }
    | none => table
  | .throws => { table with throws := table.throws ++ [throwsTag block.content] }
  | .since => { table with since := nonEmpty? block.content }
  | .author => { table with author := nonEmpty? block.content }
  | .deprecated => { table with deprecated := nonEmpty? block.content }
  | .doc => { table with doc := nonEmpty? block.content }
  | .sample => { table with sample := nonEmpty? block.content }
  | .see => { table with see := table.see ++ (nonEmpty? block.content).toList }

/-- The tags of a section. -/
def ofSection (tagText : Text) (signature : Option Signature) : TagTable :=
  (TagBlock.ofSection tagText).foldl (add signature) {}

end TagTable

end DeclDocs
