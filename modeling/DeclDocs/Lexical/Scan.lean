import DeclDocs.Lexical.Glyph

/-!
# Scanning lines

The scanner reads a line from the left and tells code, comments and literals apart.  What is still
open at the end of a line (a block comment, a string, a character literal) is carried into the
next line.

* A block comment is replaced by one space at the place where it closes; a line comment vanishes.
* A backslash inside a literal takes the following character with it.
* While a block comment is open nothing else is recognised, whatever the other flags say; a string
  is looked at before a character literal, and a closing quote ends both.
-/

namespace DeclDocs

/-- What is open between two characters. -/
structure ScanState where
  inBlockComment : Bool := false
  inString : Bool := false
  inChar : Bool := false
deriving DecidableEq, Repr

/-- A line with its comments removed, and what is open at its end. -/
structure ScannedLine where
  glyphs : List Glyph
  state : ScanState
deriving DecidableEq, Repr

namespace ScannedLine

/-- The line without comments. -/
def code (line : ScannedLine) : Text := codeOf line.glyphs

/-- The line without comments and with the contents of literals blanked. -/
def skeleton (line : ScannedLine) : Text := skeletonOf line.glyphs

def openBraces (line : ScannedLine) : Nat := countCode '{' line.glyphs

def closeBraces (line : ScannedLine) : Nat := countCode '}' line.glyphs

def openParens (line : ScannedLine) : Nat := countCode '(' line.glyphs

def closeParens (line : ScannedLine) : Nat := countCode ')' line.glyphs

/-- Braces opened less braces closed. -/
def braceDelta (line : ScannedLine) : Int := line.openBraces - line.closeBraces

/-- Parentheses opened less parentheses closed. -/
def parenDelta (line : ScannedLine) : Int := line.openParens - line.closeParens

/-- The line with a glyph put in front of it. -/
def push (glyph : Glyph) (line : ScannedLine) : ScannedLine :=
  { line with glyphs := glyph :: line.glyphs }

end ScannedLine

namespace ScanState

/-- The quote that closes the open literal: a string's when both flags are set. -/
def quote (state : ScanState) : Char :=
  if state.inString then '"' else '\''

/-- Scans the characters of a line from the given state. -/
def scan (state : ScanState) : Text → ScannedLine
  | [] => ⟨[], state⟩
  | c :: cs =>
    if state.inBlockComment then
      match c, cs with
      | '*', '/' :: rest =>
        (scan { state with inBlockComment := false } rest).push (.code ' ')
      | _, rest => scan state rest
    else if state.inString || state.inChar then
      if c = '\\' then
        match cs with
        | [] => ⟨[.literal c], state⟩
        | escaped :: rest => ((scan state rest).push (.literal escaped)).push (.literal c)
      else if c = state.quote then
        (scan { state with inString := false, inChar := false } cs).push (.code c)
      else
        (scan state cs).push (.literal c)
    else
      match c, cs with
      | '/', '/' :: _ => ⟨[], state⟩
      | '/', '*' :: rest => scan { state with inBlockComment := true } rest
      | '"', rest => (scan { state with inString := true } rest).push (.code '"')
      | '\'', rest => (scan { state with inChar := true } rest).push (.code '\'')
      | c, rest => (scan state rest).push (.code c)

end ScanState

/-- Scans a line that begins outside comments and literals. -/
def scanLine (line : Text) : ScannedLine :=
  ScanState.scan {} line

/-- Scans consecutive lines, each from the state that the line before it left. -/
def scanLines (state : ScanState) : List Text → List ScannedLine
  | [] => []
  | line :: lines =>
    let scanned := state.scan line
    scanned :: scanLines scanned.state lines

/-- What is open after the last of the lines. -/
def stateAfter (state : ScanState) (lines : List Text) : ScanState :=
  lines.foldl (fun state line => (state.scan line).state) state

end DeclDocs
