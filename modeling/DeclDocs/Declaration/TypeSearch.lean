import DeclDocs.Lexical.Scan
import DeclDocs.Text.Blank
import DeclDocs.Text.WordChar

/-!
# Types and packages found in the text

Without an outline of a document its main type is sought in the text: a declaration of a type on a
line that begins outside all braces.  The type named like the file is preferred, then the first
one; a document without any is named after its file.

* `typeNames`: the types that a line declares.
* `findContainer`, `findPackage`: the main type and the package of a document.
-/

namespace DeclDocs

/-! ## §1 Declarations on a line -/

/-- Words that declare a type. -/
def typeKeywords : List Text := ["class", "interface", "enum", "record"]

/-- A character that may begin a type's name. -/
def isTypeNameStart (c : Char) : Bool :=
  c.isAlpha || c == '_' || c == '$'

/-- The first of the given texts that the text begins with is dropped from it. -/
def dropFirst? (marks : List Text) (text : Text) : Option Text :=
  marks.findSome? fun mark => text.after? mark

/-- The type whose declaration begins the text (a keyword, blanks and a name), and what follows its
name. -/
def declaredType? (text : Text) : Option (Text × Text) :=
  match dropFirst? typeKeywords text with
  | none => none
  | some rest =>
    match rest with
    | [] => none
    | c :: _ =>
      if isBlank c then
        match Text.trimStart rest with
        | [] => none
        | first :: others =>
          if isTypeNameStart first then
            some (first :: others.takeWhile isNameChar, others.dropWhile isNameChar)
          else none
      else none

/-- A keyword may begin behind the character: it is no word character, `$` or `.`. -/
def isTypeBoundary (c : Char) : Bool :=
  !(isNameChar c || c == '.')

/-- The names of the types declared in the text.  The first `skip` characters belong to a
declaration that has been read; `atBoundary` tells whether a keyword may begin here. -/
def typeNames : (skip : Nat) → (atBoundary : Bool) → Text → List Text
  | _, _, [] => []
  | skip + 1, _, c :: cs => typeNames skip (isTypeBoundary c) cs
  | 0, atBoundary, c :: cs =>
    match if atBoundary then declaredType? (c :: cs) else none with
    | some (name, rest) => name :: typeNames (cs.length - rest.length) false cs
    | none => typeNames 0 (isTypeBoundary c) cs

/-! ## §2 The main type of a document -/

/-- A line number of 32 bits, if the line has one. -/
def lineNumber? (line : Nat) : Option UInt32 :=
  if line < UInt32.size then some (UInt32.ofNat line) else none

/-- A type found in the text. -/
structure TextContainer where
  name : Text
  /-- The line of its declaration, absent when the name comes from the file or the line has no
  number. -/
  line : Option UInt32
deriving DecidableEq, Repr

/-- The name of a type in a document without types and without a file name. -/
def placeholderName : Text := "Unknown"

/-- The types declared on lines that begin outside braces, in order.  `depth` braces are open, and
`index` is the number of the first line. -/
def topLevelTypes (state : ScanState) (depth index : Nat) : List Text → List (Text × Nat)
  | [] => []
  | line :: lines =>
    let scanned := state.scan line
    let found := if depth = 0 then typeNames 0 true scanned.skeleton else []
    found.map (·, index) ++
      topLevelTypes scanned.state (depth + scanned.openBraces - scanned.closeBraces) (index + 1)
        lines

/-- The main type of the document: the first one called `baseName` if that is preferred, else the
first one, else the base name or a placeholder. -/
def findContainer (lines : List Text) (baseName : Text) (preferBaseName : Bool) : TextContainer :=
  let found := topLevelTypes {} 0 0 lines
  let preferred := if preferBaseName then found.find? fun (name, _) => name == baseName else none
  match preferred.or found.head? with
  | some (name, line) => ⟨name, lineNumber? line⟩
  | none => ⟨if baseName.isEmpty then placeholderName else baseName, none⟩

/-! ## §3 The package of a document -/

/-- Words that name a package. -/
def packageKeywords : List Text := ["package", "namespace"]

/-- The package that a line names at its beginning. -/
def packageName? (code : Text) : Option Text :=
  match dropFirst? packageKeywords code.trimStart with
  | none => none
  | some rest =>
    match rest with
    | [] => none
    | c :: _ =>
      let name := (Text.trimStart rest).takeWhile fun c => isWordChar c || c == '.'
      if isBlank c && !name.isEmpty then some name else none

/-- The package that the first such line names. -/
def findPackage (lines : List Text) : Option Text :=
  (scanLines {} lines).findSome? fun line => packageName? line.code

end DeclDocs
