import DeclDocs.Declaration.Annotation

/-!
# The gap between a comment and its declaration

A comment documents a declaration when nothing but blank lines and annotations stands between
them.  An argument list of an annotation may run over several lines; what follows its closing
parenthesis must again be annotations.  A line that holds only a comment breaks the gap, unless it
begins inside such an argument list.
-/

namespace DeclDocs

/-- The number of parentheses that the glyphs leave open, if they are blanks and annotations
only. -/
def annotationsOpen? (glyphs : List Glyph) : Option Nat :=
  let code := Text.trim (codeOf glyphs)
  if code.isEmpty then some 0
  else if !code.startsWith "@" || code.startsWith "@interface" then none
  else if (stripAnnotations code).isEmpty then some (countCode '(' glyphs - countCode ')' glyphs)
  else none

/-- The number of parentheses open after a line of the gap that begins with `depth` of them open;
`none` when the line breaks the gap. -/
def gapDepth? (depth : Nat) (line : Text) (scanned : ScannedLine) : Option Nat :=
  match depth with
  | 0 =>
    if line.isBlankText then some 0
    else if scanned.code.isBlankText then none
    else annotationsOpen? scanned.glyphs
  | nested + 1 =>
    match untilClose '(' ')' nested scanned.glyphs with
    | some (_, rest) => annotationsOpen? rest
    | none => some (nested + 1 + scanned.openParens - scanned.closeParens)

/-- The lines continue a gap that has `depth` parentheses open. -/
def continuesGap (state : ScanState) (depth : Nat) : List Text → Bool
  | [] => true
  | line :: lines =>
    let scanned := state.scan line
    match gapDepth? depth line scanned with
    | some depth => continuesGap scanned.state depth lines
    | none => false

/-- Every line is blank or belongs to an annotation. -/
def isTransparentGap (lines : List Text) : Bool :=
  continuesGap {} 0 lines

end DeclDocs
