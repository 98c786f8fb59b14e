import DeclDocs.Lexical.Scan
import DeclDocs.Text.Blank

/-!
# Masked text and delimiters

Declaration text is searched for delimiters through a mask that blanks the contents of literals, so
a parenthesis or a comma inside a string never counts.  Text that still holds a comment is not
masked at all: with the comment gone the offsets would no longer fit.

* `maskGlyphs`, `literalMask`: the mask as glyphs of the text and as text.
* `cutCode?`: the first occurrence of a character outside literals.
* `untilClose`: the inside of a group up to its closing delimiter.
* `splitTopLevel`: the pieces between commas outside brackets.
-/

namespace DeclDocs

/-- The glyphs of the text, one for each of its characters: literal contents are masked unless the
text holds a comment. -/
def maskGlyphs (text : Text) : List Glyph :=
  let scanned := scanLine text
  if scanned.glyphs.length = text.length then scanned.glyphs else text.map Glyph.code

/-- The text with the contents of its literals blanked, or the text itself when it holds a
comment. -/
def literalMask (text : Text) : Text :=
  skeletonOf (maskGlyphs text)

/-- Splits the glyphs at the first `c` outside literals. -/
def cutGlyphs? (c : Char) : List Glyph → Option (List Glyph × List Glyph)
  | [] => none
  | g :: gs =>
    if g.shown = c then some ([], gs)
    else (cutGlyphs? c gs).map fun (before, rest) => (g :: before, rest)

/-- The text in front of the first `c` outside literals, and the text behind it. -/
def cutCode? (c : Char) (text : Text) : Option (Text × Text) :=
  (cutGlyphs? c (maskGlyphs text)).map fun (before, rest) => (codeOf before, codeOf rest)

/-- The inside of a group whose opening delimiter has been read, and what follows its closing
delimiter.  `nested` groups within it are open at the start. -/
def untilClose (opening closing : Char) : (nested : Nat) → List Glyph →
    Option (List Glyph × List Glyph)
  | _, [] => none
  | nested, g :: gs =>
    let keep := fun (inside, rest) => (g :: inside, rest)
    if g.shown = opening then (untilClose opening closing (nested + 1) gs).map keep
    else if g.shown = closing then
      match nested with
      | 0 => some ([], gs)
      | outer + 1 => (untilClose opening closing outer gs).map keep
    else (untilClose opening closing nested gs).map keep

/-- Splits glyphs at the commas outside `<...>` and `(...)`; `depth` brackets are open. -/
def splitCommas : (depth : Nat) → List Glyph → List (List Glyph)
  | _, [] => [[]]
  | depth, g :: gs =>
    let c := g.shown
    if c = ',' ∧ depth = 0 then [] :: splitCommas depth gs
    else
      let depth :=
        if c = '<' ∨ c = '(' then depth + 1
        else if c = '>' ∨ c = ')' then depth - 1
        else depth
      match splitCommas depth gs with
      | [] => [[g]]
      | piece :: pieces => (g :: piece) :: pieces

/-- The trimmed, non-empty pieces of the text between commas outside literals and brackets. -/
def splitTopLevel (text : Text) : List Text :=
  ((splitCommas 0 (maskGlyphs text)).map fun piece => (codeOf piece).trim).filter fun piece =>
    !piece.isEmpty

/-- Splits text at blanks outside `<...>`; `depth` angle brackets are open. -/
def splitTypeBlanks : (depth : Nat) → Text → List Text
  | _, [] => [[]]
  | depth, c :: cs =>
    let depth := if c = '<' then depth + 1 else if c = '>' then depth - 1 else depth
    if isBlank c ∧ depth = 0 then [] :: splitTypeBlanks depth cs
    else
      match splitTypeBlanks depth cs with
      | [] => [[c]]
      | token :: tokens => (c :: token) :: tokens

/-- The words of the text, where the type arguments between `<` and `>` stay in one word. -/
def typeTokens (text : Text) : List Text :=
  (splitTypeBlanks 0 text).filter fun token => !token.isEmpty

end DeclDocs
