import DeclDocs.Text.Blank

/-!
# Documentation comments

A block comment without its delimiters and decoration, split into a description and a section of
tags.  The tags begin with the first line whose first character is `@` and whose second is an
ASCII letter.
-/

namespace DeclDocs

/-- A documentation comment. -/
structure DocComment where
  /-- The text in front of the first tag line, trimmed. -/
  description : Text
  /-- The lines from the first tag line on, without decoration. -/
  tagSection : Text
  /-- The comment as it stands in the document. -/
  raw : Text
deriving DecidableEq, Repr

/-- A star or a blank: what may stand in front of the text of a comment line. -/
def isDecoration (c : Char) : Bool :=
  c == '*' || isBlank c

namespace DocComment

/-- A comment line without a leading `/*` and the stars behind it. -/
def dropOpening (line : Text) : Text :=
  match line.after? "/*" with
  | some rest => rest.dropWhile (· == '*')
  | none => line

/-- A comment line without a closing `*/`. -/
def dropClosing (line : Text) : Text :=
  (line.before? "*/").getD line

/-- A comment line without delimiters, stars and blanks around its text. -/
def undecorate (line : Text) : Text :=
  Text.trimEnd ((dropClosing (dropOpening line.trim)).dropWhile isDecoration)

/-- The line begins a tag section. -/
def startsTag (line : Text) : Bool :=
  match line with
  | '@' :: c :: _ => c.isAlpha
  | _ => false

/-- Reads a comment from its text, delimiters included. -/
def parse (text : Text) : DocComment :=
  let body := text.lines.map undecorate
  { description := Text.trim (Text.join ['\n'] (body.takeWhile fun line => !startsTag line))
    tagSection := Text.join ['\n'] (body.dropWhile fun line => !startsTag line)
    raw := text }

end DocComment

end DeclDocs
