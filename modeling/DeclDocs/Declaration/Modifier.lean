import DeclDocs.Text.Blank

/-!
# Modifiers

The words that may stand in front of a declaration or of a single parameter, and their removal.
-/

namespace DeclDocs

/-- Words in front of a declaration that belong to neither its type nor its name. -/
def modifiers : List Text :=
  ["public", "protected", "private", "static", "final", "abstract", "synchronized", "native",
   "default", "strictfp", "transient", "volatile", "sealed", "non-sealed"]

/-- Words in front of a parameter that do not belong to its type. -/
def parameterModifiers : List Text :=
  ["final", "const"]

/-- What follows the first word of the text, without leading blanks, if it is one of `words`. -/
def dropWord? (words : List Text) (text : Text) : Option Text :=
  let word := text.takeWhile fun c => !isBlank c
  if !word.isEmpty && words.contains word then
    some (Text.trimStart (text.dropWhile fun c => !isBlank c))
  else none

/-- The text without the blanks and the given words in front of it. -/
def stripWords (words : List Text) (text : Text) : Text :=
  Text.strip (dropWord? words) text.trimStart

end DeclDocs
