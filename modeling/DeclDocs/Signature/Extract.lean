import DeclDocs.Lexical.Scan
import DeclDocs.Text.Blank
import DeclDocs.Text.Number
import DeclDocs.Text.WordChar

/-!
# Recovering a signature from lines

A declaration may run over several lines.  Lines are read from its first one on, comments removed,
until the parenthesis that opened its parameter list closes; argument lists of annotations are
passed over on the way.  A limit on the number of lines bounds the search: when it is reached, the
text read so far is the signature.

* `ParenWatch.step`: one character of the search.
* `extractSignature`: the squeezed text of the declaration at a line.
-/

namespace DeclDocs

/-- How a declaration can be unusable. -/
inductive ExtractionError where
  /-- The declaration's line is not in the document. -/
  | lineOutOfRange (line lineCount : Nat)
  /-- The declaration of a callable opens no parameter list. -/
  | noParameterList (name : Text)
deriving DecidableEq, Repr

namespace ExtractionError

/-- The error in words. -/
def message : ExtractionError → Text
  | lineOutOfRange line lineCount =>
    "Line " ++ decimal line ++ " is outside the document (" ++ decimal lineCount ++ " lines)"
  | noParameterList name => "Extraction failed for " ++ name ++ ": no parameter list found"

end ExtractionError

/-- Most lines of a signature unless a setting says otherwise. -/
def defaultSignatureLines : Nat := 15

/-! ## §1 Watching for the end of the parameter list -/

/-- Where the search stands with respect to an annotation. -/
inductive AnnotationPlace where
  | outside
  | name
  | afterName
  /-- Inside an argument list, with `nested` groups open within it. -/
  | arguments (nested : Nat)
deriving DecidableEq, Repr

/-- What the search for the end of the parameter list remembers. -/
structure ParenWatch where
  annotation : AnnotationPlace := .outside
  /-- Parentheses open outside annotations. -/
  depth : Nat := 0
  /-- A parenthesis has been opened outside annotations. -/
  opened : Bool := false
deriving DecidableEq, Repr

namespace ParenWatch

/-- Reads a character that is not part of an annotation; `none` when it closes the parameter
list. -/
def stepOutside (watch : ParenWatch) (c : Char) : Option ParenWatch :=
  if c = '@' then some { watch with annotation := .name }
  else if c = '(' then
    some { watch with annotation := .outside, depth := watch.depth + 1, opened := true }
  else if c = ')' then
    if watch.opened && watch.depth ≤ 1 then none
    else some { watch with annotation := .outside, depth := watch.depth - 1 }
  else some { watch with annotation := .outside }

/-- Reads a character; `none` when it closes the parameter list. -/
def step (watch : ParenWatch) (c : Char) : Option ParenWatch :=
  match watch.annotation with
  | .outside => watch.stepOutside c
  | .name =>
    if isIdentifierChar c || c == '.' then some watch
    else if isBlank c then some { watch with annotation := .afterName }
    else if c = '(' then some { watch with annotation := .arguments 0 }
    else watch.stepOutside c
  | .afterName =>
    if isBlank c then some watch
    else if c = '(' then some { watch with annotation := .arguments 0 }
    else watch.stepOutside c
  | .arguments nested =>
    if c = '(' then some { watch with annotation := .arguments (nested + 1) }
    else if c = ')' then
      match nested with
      | 0 => some { watch with annotation := .outside }
      | outer + 1 => some { watch with annotation := .arguments outer }
    else some watch

/-- The glyphs up to the end of the parameter list, or all of them and what to remember for the
next line. -/
def readLine (watch : ParenWatch) : List Glyph → List Glyph × Option ParenWatch
  | [] => ([], some watch)
  | g :: gs =>
    match watch.step g.shown with
    | none => ([g], none)
    | some watch =>
      let (kept, next) := readLine watch gs
      (g :: kept, next)

end ParenWatch

/-! ## §2 Reading the lines -/

/-- The code of the lines up to the end of the parameter list. -/
def signatureParts (watch : ParenWatch) (state : ScanState) : List Text → List Text
  | [] => []
  | line :: lines =>
    let scanned := state.scan line
    match watch.readLine scanned.glyphs with
    | (kept, none) => [codeOf kept]
    | (kept, some watch) => codeOf kept :: signatureParts watch scanned.state lines

/-- The text of the declaration at line `start`, from at most `maxLines` lines but at least one. -/
def extractSignature (lines : List Text) (start maxLines : Nat) : Except ExtractionError Text :=
  if lines.length ≤ start then .error (.lineOutOfRange start lines.length)
  else
    let window := (lines.drop start).take (max 1 maxLines)
    .ok (Text.squeeze (Text.join [' '] (signatureParts {} {} window)))

end DeclDocs
