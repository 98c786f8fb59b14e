import DeclDocs.Comment.Gap

/-!
# Finding the comment of a declaration

The search goes upward from the declaration.  The nearest line that ends in `*/` is a candidate if
the lines between it and the declaration are a transparent gap.  From there the opening `/*` is
sought: it must be the first thing on its line, since a comment that trails code documents that
code.  A candidate that fails sends the search further up: above the line of a trailing comment,
or to the line of another `*/` met on the way.

* `openingAbove`, `openingOf`: where the comment that closes on a line opens.
* `locateComment`: the comment of the declaration at a line.
-/

namespace DeclDocs

/-- A block comment of a document. -/
structure CommentBlock where
  startLine : Nat
  endLine : Nat
  /-- From `/*` through `*/`, the lines joined by line feeds. -/
  text : Text
deriving DecidableEq, Repr

/-- A line of the document, empty beyond its end. -/
def lineAt (lines : List Text) (index : Nat) : Text :=
  lines.getD index []

/-- The line ends in `*/`, blanks aside. -/
def closesComment (line : Text) : Bool :=
  line.trimEnd.endsWith "*/"

/-! ## §1 The opening line -/

/-- Where a search for the opening of a comment ends. -/
inductive Opening where
  /-- The comment opens on this line. -/
  | at (line : Nat)
  /-- No comment of its own: look for candidates on lines below this number. -/
  | resume (below : Nat)
  /-- The document has no opening. -/
  | missing
deriving DecidableEq, Repr

/-- The verdict on a line that has `/*` behind the text `before`. -/
def openingAfter (before : Text) (line : Nat) : Opening :=
  if before.isBlankText then .at line else .resume line

/-- Looks for the opening on the lines below number `below`, from the bottom. -/
def openingAbove (lines : List Text) : (below : Nat) → Opening
  | 0 => .missing
  | line + 1 =>
    let text := lineAt lines line
    if text.has "*/" then .resume (line + 1)
    else
      match text.cut? "/*" with
      | some (before, _) => openingAfter before line
      | none => openingAbove lines line

/-- Looks for the opening of the comment that closes at the end of line `close`. -/
def openingOf (lines : List Text) (close : Nat) : Opening :=
  let inside := ((lineAt lines close).trimEnd.before? "*/").getD []
  match inside.cut? "/*" with
  | some (before, _) => openingAfter before close
  | none => openingAbove lines close

/-! ## §2 The search -/

/-- Searches upward for the first and last line of the comment above line `declaration`.  Lines
from `below` on have been looked at, and lines from `limit` on are no candidates. -/
def searchComment (lines : List Text) (declaration : Nat) : (below limit : Nat) →
    Option (Nat × Nat)
  | 0, _ => none
  | line + 1, limit =>
    if line < limit && closesComment (lineAt lines line) &&
        isTransparentGap ((lines.take declaration).drop (line + 1)) then
      match openingOf lines line with
      | .at start => some (start, line)
      | .resume limit => searchComment lines declaration line limit
      | .missing => none
    else searchComment lines declaration line limit

/-- A line up to its last `*/`. -/
def upToClose (line : Text) : Text :=
  match line.cutLast? "*/" with
  | some (before, _) => before ++ "*/"
  | none => line

/-- A line from its first `/*` on. -/
def fromOpen (line : Text) : Text :=
  match line.cut? "/*" with
  | some (_, rest) => "/*" ++ rest
  | none => line

/-- The lines with the last one cut behind its last `*/`. -/
def cutAtClose : List Text → List Text
  | [] => []
  | [last] => [upToClose last]
  | line :: rest => line :: cutAtClose rest

/-- The lines with the first one cut in front of its first `/*`. -/
def cutAtOpen : List Text → List Text
  | [] => []
  | first :: rest => fromOpen first :: rest

/-- The text of the comment on the given lines. -/
def blockText (lines : List Text) : Text :=
  Text.join ['\n'] (cutAtOpen (cutAtClose lines))

/-- The comment of the declaration at line `declaration`. -/
def locateComment (lines : List Text) (declaration : Nat) : Option CommentBlock :=
  let declaration := min declaration lines.length
  (searchComment lines declaration declaration declaration).map fun (start, close) =>
    ⟨start, close, blockText ((lines.take (close + 1)).drop start)⟩

end DeclDocs
