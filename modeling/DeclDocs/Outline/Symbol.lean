import DeclDocs.Outline.Kind
import DeclDocs.Text.Blank

/-!
# Symbols

An outline of a document is a forest of symbols, one per declaration, with the lines that the
declaration and its name take up.
-/

namespace DeclDocs

/-- A place in a document; lines and characters count from zero. -/
structure Position where
  line : UInt32
  character : UInt32
deriving DecidableEq, Repr

/-- A stretch of a document. -/
structure Range where
  start : Position
  stop : Position
deriving DecidableEq, Repr

/-- The range from the beginning of one line to the beginning of another. -/
def Range.ofLines (first last : UInt32) : Range :=
  ⟨⟨first, 0⟩, ⟨last, 0⟩⟩

/-- A declaration of an outline with the declarations inside it. -/
structure DeclarationSymbol where
  /-- The name as the provider gives it, which may carry parameters and a type. -/
  name : Text
  kind : DeclarationKind
  detail : Option Text := none
  /-- The whole declaration. -/
  range : Range
  /-- The declared name. -/
  selectionRange : Range
  children : List DeclarationSymbol := []
  /-- The enclosing declaration as a flat list of symbols reports it. -/
  containerName : Option Text := none

namespace DeclarationSymbol

/-- A symbol without children whose name stands on the first line of its range. -/
def leaf (name : Text) (kind : DeclarationKind) (range : Range) : DeclarationSymbol :=
  { name, kind, range, selectionRange := Range.ofLines range.start.line range.start.line }

/-- The line of the declared name. -/
def startLine (symbol : DeclarationSymbol) : UInt32 :=
  symbol.selectionRange.start.line

/-- The last line of the declaration, never above its first. -/
def endLine (symbol : DeclarationSymbol) : UInt32 :=
  max symbol.range.stop.line symbol.startLine

/-- The name without a parameter list or a type behind it. -/
def bareName (symbol : DeclarationSymbol) : Text :=
  Text.trim (Text.upTo ':' (Text.upTo '(' symbol.name))

end DeclarationSymbol

end DeclDocs
