import DeclDocs.Text.Basic

/-!
# Files

What stands at a path as far as the library asks: nothing, a folder, or a file with its content.
The content of a file may fail to be text.

* `FileStatus`: what stands at a path.
* `FileTree`: files in memory, with paths looked up as a file system does.
* `absolutePath`: a path from the root on.
-/

namespace DeclDocs

/-! ## §1 Contents -/

/-- The content of a file. -/
inductive FileContent where
  | text (value : Text)
  | bytes (value : List UInt8)
deriving Repr

namespace FileContent

/-- The text that bytes encode, if they are UTF-8. -/
def decode? (bytes : List UInt8) : Option Text :=
  (String.fromUTF8? ⟨bytes.toArray⟩).map String.toList

/-- The text of the file. -/
def text? : FileContent → Option Text
  | text value => some value
  | bytes value => decode? value

/-- The stretches of bytes that end in a line feed, and the rest. -/
def byteLines : List UInt8 → List (List UInt8)
  | [] => []
  | b :: bs =>
    if b = 10 then [b] :: byteLines bs
    else
      match byteLines bs with
      | [] => [[b]]
      | line :: lines => (b :: line) :: lines

/-- The lines in front of the first one that is not text. -/
def readableText : FileContent → Text
  | text value => value
  | bytes value =>
    (((byteLines value).map decode?).takeWhile Option.isSome).flatMap fun line => line.getD []

end FileContent

/-! ## §2 Paths -/

/-- Why a file cannot be read as text. -/
inductive FileError where
  | missing
  | isFolder
  | notFolder
  | nameTooLong
  | nulInName
  | notText
deriving DecidableEq, Repr

/-- The error in words. -/
def FileError.message : FileError → Text
  | missing => "No such file or directory (os error 2)"
  | isFolder => "Is a directory (os error 21)"
  | notFolder => "Not a directory (os error 20)"
  | nameTooLong => "File name too long (os error 36)"
  | nulInName => "file name contained an unexpected NUL byte"
  | notText => "stream did not contain valid UTF-8"

/-- What stands at a path. -/
inductive FileStatus where
  | file (content : FileContent)
  | folder
  | missing
  /-- The path leads through something that is no folder. -/
  | blocked
  /-- The path or a name in it has too many bytes. -/
  | nameTooLong
  /-- The path holds the character with the code point zero, which no name has. -/
  | nulInName
deriving Repr

namespace FileStatus

def isFile : FileStatus → Bool
  | file _ => true
  | _ => false

/-- The text of the file that stands there. -/
def readText : FileStatus → Except FileError Text
  | file content =>
    match content.text? with
    | some text => .ok text
    | none => .error .notText
  | folder => .error .isFolder
  | missing => .error .missing
  | blocked => .error .notFolder
  | nameTooLong => .error .nameTooLong
  | nulInName => .error .nulInName

end FileStatus

/-- The parts of a path between slashes, without empty ones. -/
def pathSteps (path : Text) : List Text :=
  (Text.split (· == '/') path).filter fun part => !part.isEmpty

/-- The parts of a path that lead somewhere else. -/
def pathParts (path : Text) : List Text :=
  (pathSteps path).filter fun part => part != "."

/-- The number of bytes that encode a text. -/
def byteLength (text : Text) : Nat := text.foldl (fun n c => n + c.utf8Size) 0

/-- The most bytes of a name in a folder. -/
def longestName : Nat := 255

/-- The most bytes of a path. -/
def longestPath : Nat := 4095

/-- The path from the root on, relative paths being taken from `folder`. -/
def absolutePath (folder path : Text) : Text :=
  let parts := pathParts path
  if path.startsWith "/" then "/" ++ Text.join ['/'] parts
  else Text.join ['/'] (folder :: parts)

/-! ## §3 Files in memory -/

/-- Files by the parts of their paths from the working folder. -/
structure FileTree where
  files : List (List Text × FileContent) := []
deriving Repr

namespace FileTree

/-- What stands at a place inside the working folder. -/
def node (tree : FileTree) (place : List Text) : FileStatus :=
  match tree.files.lookup place with
  | some content => .file content
  | none =>
    if place.isEmpty || tree.files.any fun (path, _) => place.isPrefixOf path then .folder
    else .missing

/-- Follows the parts of a path from a place inside the working folder, or from outside it when
there is none.  Of the places outside only the folders above are known. -/
def follow (tree : FileTree) : (place : Option (List Text)) → List Text → FileStatus
  | none, [] => .folder
  | some place, [] => tree.node place
  | none, part :: parts =>
    if part = "." ∨ part = ".." then follow tree none parts
    else if longestName < byteLength part then .nameTooLong
    else .missing
  | some place, part :: parts =>
    match tree.node place with
    | .folder =>
      if part = "." then follow tree (some place) parts
      else if part = ".." then
        follow tree (if place.isEmpty then none else some place.dropLast) parts
      else if longestName < byteLength part then .nameTooLong
      else follow tree (some (place ++ [part])) parts
    | .missing => .missing
    | _ => .blocked

/-- What stands at a path, relative paths being taken from the working folder.  A slash at the end
asks for a folder. -/
def status (tree : FileTree) (path : Text) : FileStatus :=
  let place := if path.startsWith "/" then none else some []
  let steps := if path.endsWith "/" then pathSteps path ++ [("." : Text)] else pathSteps path
  if path.isEmpty then .missing
  else if path.any fun c => c.toNat == 0 then .nulInName
  else if longestPath < byteLength path then .nameTooLong
  else tree.follow place steps

end FileTree

end DeclDocs
