import DeclDocs.Comment.Doc

/-!
# Tag blocks

A tag section is a sequence of blocks.  A block opens on a line that, decoration aside, begins with
`@` and one of the recognised names, and takes in the lines that follow it up to the next such
line.  Anything else that looks like a tag is running text.

* `TagBlock.ofSection`: the blocks of a section.
* `TagBlock.toSource`: the text of a block.
-/

namespace DeclDocs

/-- The recognised tags. -/
inductive TagKind where
  | param
  | returns
  | throws
  | since
  | author
  | deprecated
  | see
  | doc
  | sample
deriving DecidableEq, Repr

namespace TagKind

/-- The tag that a name stands for; two tags have a second spelling. -/
def ofName? (name : Text) : Option TagKind :=
  if name = "param" then some .param
  else if name = "return" || name = "returns" then some .returns
  else if name = "throws" || name = "exception" then some .throws
  else if name = "since" then some .since
  else if name = "author" then some .author
  else if name = "deprecated" then some .deprecated
  else if name = "see" then some .see
  else if name = "doc" then some .doc
  else if name = "example" then some .sample
  else none

/-- The name of the tag. -/
def name : TagKind → Text
  | .param => "param"
  | .returns => "return"
  | .throws => "throws"
  | .since => "since"
  | .author => "author"
  | .deprecated => "deprecated"
  | .see => "see"
  | .doc => "doc"
  | .sample => "example"

end TagKind

/-- A tag with the text of its opening line and of the lines that continue it. -/
structure TagBlock where
  kind : TagKind
  /-- The non-empty lines of the block without decoration, joined by line feeds. -/
  content : Text
deriving DecidableEq, Repr

namespace TagBlock

/-- The text that reads back as the block. -/
def toSource (block : TagBlock) : Text :=
  if block.content.isEmpty then "@" ++ block.kind.name
  else "@" ++ block.kind.name ++ " " ++ block.content

/-- The block that a line opens: the word behind `@` is a recognised name. -/
def ofLine? (line : Text) : Option TagBlock :=
  match line.dropWhile isDecoration with
  | '@' :: rest =>
    (TagKind.ofName? (rest.takeWhile fun c => !isBlank c)).map fun kind =>
      ⟨kind, Text.trim (rest.dropWhile fun c => !isBlank c)⟩
  | _ => none

/-- The text of a line that opens no block. -/
def continuation (line : Text) : Text :=
  Text.trimEnd (line.dropWhile isDecoration)

/-- The block with a further line of text; an empty line adds nothing. -/
def extend (block : TagBlock) (text : Text) : TagBlock :=
  if text.isEmpty then block
  else if block.content.isEmpty then { block with content := text }
  else { block with content := block.content ++ '\n' :: text }

/-- The blocks of the lines, `current` being open at the start; text in front of the first block
is dropped. -/
def ofLines (current : Option TagBlock) : List Text → List TagBlock
  | [] => current.toList
  | line :: lines =>
    match ofLine? line with
    | some block => current.toList ++ ofLines (some block) lines
    | none => ofLines (current.map fun block => block.extend (continuation line)) lines

/-- The blocks of a tag section. -/
def ofSection (tagText : Text) : List TagBlock :=
  ofLines none tagText.lines

end TagBlock

end DeclDocs
