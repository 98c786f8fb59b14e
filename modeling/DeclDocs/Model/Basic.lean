import DeclDocs.Declaration.Visibility
import DeclDocs.Signature.Extract
import DeclDocs.Tag.Table

/-!
# The documentation model

What the library knows about a document: its main type with description, author and version, and
one record for each method, field and enum constant.  The members of each kind are sorted by the
line on which they start.
-/

namespace DeclDocs

/-! ## §1 Documents -/

/-- The identity of a document: a path or a file address. -/
structure DocumentId where
  value : Text
deriving DecidableEq, Repr

namespace DocumentId

/-- The path of the document. -/
def path (document : DocumentId) : Text :=
  (document.value.after? "file://").getD document.value

/-- The name of the file without folders and without anything from its first dot on. -/
def baseName (document : DocumentId) : Text :=
  let file := ((Text.split (fun c => c == '/' || c == '\\') document.path).getLast?).getD []
  Text.upTo '.' file

end DocumentId

/-! ## §2 Members -/

inductive MethodKind where
  | method
  | constructor
deriving DecidableEq, Repr

namespace MethodKind

def name : MethodKind → Text
  | method => "method"
  | constructor => "constructor"

def all : List MethodKind := [method, constructor]

end MethodKind

/-- The documentation of a callable. -/
structure MethodDoc where
  /-- The name and the first line, which together are unique in a document. -/
  id : Text
  kind : MethodKind
  name : Text
  /-- `name(Type, Type)`. -/
  displaySignature : Text
  /-- The declaration up to the end of its parameter list, blanks squeezed. -/
  signature : Text
  parameters : List Parameter
  returnType : Option Text
  startLine : UInt32
  endLine : UInt32
  hasComment : Bool
  description : Text
  tags : TagTable
  owner : Text
  visibility : Visibility
deriving DecidableEq, Repr

/-- The identity of a method within its document. -/
def MethodDoc.makeId (name : Text) (startLine : UInt32) : Text :=
  name ++ ":" ++ decimal startLine.toNat

/-- The documentation of a field. -/
structure FieldDoc where
  name : Text
  typeName : Text
  /-- The trimmed line of the declaration. -/
  declaration : Text
  startLine : UInt32
  hasComment : Bool
  description : Text
  isConstant : Bool
  visibility : Visibility
  owner : Text
deriving DecidableEq, Repr

/-- The documentation of an enum constant. -/
structure EnumConstantDoc where
  name : Text
  startLine : UInt32
  hasComment : Bool
  description : Text
  /-- The arguments with their parentheses, or nothing. -/
  arguments : Text
  owner : Text
deriving DecidableEq, Repr

/-! ## §3 The model of a document -/

/-- Who wrote the declaration of the main type, as version control tells. -/
structure Authorship where
  author : Text
  lastModifier : Text
  lastModifyDate : Text
deriving DecidableEq, Repr

/-- Where the main type was found. -/
inductive ModelSource where
  /-- In the outline. -/
  | symbols
  /-- In the text. -/
  | textFallback
deriving DecidableEq, Repr

namespace ModelSource

def name : ModelSource → Text
  | symbols => "symbols"
  | textFallback => "text_fallback"

def all : List ModelSource := [symbols, textFallback]

end ModelSource

/-- The documentation of a document. -/
structure DocumentModel where
  document : DocumentId
  containerName : Text
  hasComment : Bool := false
  description : Text := []
  packageName : Option Text := none
  /-- The line of the main type's name. -/
  containerLine : Option UInt32 := none
  methods : List MethodDoc := []
  fields : List FieldDoc := []
  enumConstants : List EnumConstantDoc := []
  authorship : Option Authorship := none
  author : Option Text := none
  since : Option Text := none
  source : ModelSource := .symbols
deriving DecidableEq, Repr

/-- Sorts by a line number; records on the same line keep their order. -/
def sortByLine {α : Type} (line : α → UInt32) (records : List α) : List α :=
  records.mergeSort fun a b => line a ≤ line b

namespace DocumentModel

/-- A model without members. -/
def empty (document : DocumentId) (containerName : Text) : DocumentModel :=
  { document, containerName }

/-- Sorts the members of each kind by the line on which they start. -/
def sortMembers (model : DocumentModel) : DocumentModel :=
  { model with
    methods := sortByLine MethodDoc.startLine model.methods
    fields := sortByLine FieldDoc.startLine model.fields
    enumConstants := sortByLine EnumConstantDoc.startLine model.enumConstants }

end DocumentModel

end DeclDocs
