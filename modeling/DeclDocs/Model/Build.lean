import DeclDocs.Comment.Search
import DeclDocs.Declaration.Member
import DeclDocs.Declaration.TypeSearch
import DeclDocs.Model.Basic
import DeclDocs.Outline.Leaf
import DeclDocs.Signature.Parse

/-!
# Building the model of a document

The outline says which declarations a document has; the text gives their signatures and comments.
A declaration that the text does not bear out (its line does not exist, or a callable opens no
parameter list) is left out and disturbs no other.  Without a container in the outline the main
type is sought in the text.

* `Extraction`: what members are read from.
* `buildModel`: the model of a document.
-/

namespace DeclDocs

/-- How a document is read. -/
structure ModelOptions where
  /-- Most lines of a signature. -/
  maxSignatureLines : Nat := defaultSignatureLines
  /-- The container named like the file comes before the first one. -/
  preferFileNameContainer : Bool := true
deriving DecidableEq, Repr

/-! ## §1 Members -/

/-- A document's lines and what applies to all of its members. -/
structure Extraction where
  lines : List Text
  options : ModelOptions
  /-- The text of the main type's comment. -/
  containerComment : Option Text
deriving Repr

namespace Extraction

/-- The comment above a member, unless it is the main type's own. -/
def memberComment? (extraction : Extraction) (line : UInt32) : Option DocComment :=
  match locateComment extraction.lines line.toNat with
  | none => none
  | some block =>
    if extraction.containerComment = some block.text then none
    else some (DocComment.parse block.text)

/-- The line of a declaration. -/
def line (extraction : Extraction) (index : UInt32) : Except ExtractionError Text :=
  match extraction.lines[index.toNat]? with
  | some line => .ok line
  | none => .error (.lineOutOfRange index.toNat extraction.lines.length)

/-- A callable is a constructor if the outline says so, or if it has no return type and the name
of its container. -/
def isConstructor (leaf : Leaf) (signature : Signature) : Bool :=
  leaf.symbol.kind == .constructor ||
    (signature.returnType.isNone && leaf.symbol.bareName == leaf.ownerSimpleName)

/-- The signature of a callable as its tags see it: a constructor returns nothing. -/
def memberSignature (leaf : Leaf) (signature : Signature) : Signature :=
  if isConstructor leaf signature then { signature with returnType := none } else signature

/-- The documentation of a callable with the given signature. -/
def methodDoc (extraction : Extraction) (leaf : Leaf) (parsed : Signature) : MethodDoc :=
  let symbol := leaf.symbol
  let signature := memberSignature leaf parsed
  let comment := extraction.memberComment? symbol.startLine
  { id := MethodDoc.makeId symbol.bareName symbol.startLine
    kind := if isConstructor leaf parsed then .constructor else .method
    name := symbol.bareName
    displaySignature := signature.display symbol.bareName
    signature := signature.text
    parameters := signature.parameters
    returnType := signature.returnType
    startLine := symbol.startLine
    endLine := symbol.endLine
    hasComment := comment.isSome
    description := comment.elim [] DocComment.description
    tags := comment.elim {} fun doc => TagTable.ofSection doc.tagSection (some signature)
    owner := leaf.owner
    visibility := Visibility.ofDeclaration (stripAnnotations signature.text) }

/-- The documentation of a callable. -/
def method (extraction : Extraction) (leaf : Leaf) : Except ExtractionError MethodDoc :=
  let start := leaf.symbol.startLine.toNat
  match extractSignature extraction.lines start extraction.options.maxSignatureLines with
  | .error error => .error error
  | .ok text =>
    let signature := Signature.parse text
    if signature.hasParameterList then .ok (extraction.methodDoc leaf signature)
    else .error (.noParameterList leaf.symbol.bareName)

/-- The documentation of a field. -/
def field (extraction : Extraction) (leaf : Leaf) : Except ExtractionError FieldDoc :=
  let symbol := leaf.symbol
  match extraction.line symbol.startLine with
  | .error error => .error error
  | .ok line =>
    let comment := extraction.memberComment? symbol.startLine
    .ok
      { name := symbol.bareName
        typeName := fieldType line
        declaration := line.trim
        startLine := symbol.startLine
        hasComment := comment.isSome
        description := comment.elim [] DocComment.description
        isConstant := symbol.kind == .constant || isConstantLine line
        visibility := Visibility.ofDeclaration (scanLine line).code
        owner := leaf.owner }

/-- The documentation of an enum constant. -/
def enumConstant (extraction : Extraction) (leaf : Leaf) :
    Except ExtractionError EnumConstantDoc :=
  let symbol := leaf.symbol
  match extraction.line symbol.startLine with
  | .error error => .error error
  | .ok line =>
    let comment := extraction.memberComment? symbol.startLine
    .ok
      { name := symbol.bareName
        startLine := symbol.startLine
        hasComment := comment.isSome
        description := comment.elim [] DocComment.description
        arguments := enumArguments line
        owner := leaf.owner }

/-- The usable callables among the leaves. -/
def methods (extraction : Extraction) (leaves : List Leaf) : List MethodDoc :=
  (leaves.filter fun leaf => leaf.symbol.kind.isCallable).filterMap fun leaf =>
    (extraction.method leaf).toOption

/-- The usable data members among the leaves. -/
def fields (extraction : Extraction) (leaves : List Leaf) : List FieldDoc :=
  (leaves.filter fun leaf => leaf.symbol.kind.isDataMember).filterMap fun leaf =>
    (extraction.field leaf).toOption

/-- The usable enum constants among the leaves. -/
def enumConstants (extraction : Extraction) (leaves : List Leaf) : List EnumConstantDoc :=
  (leaves.filter fun leaf => leaf.symbol.kind.isEnumConstant).filterMap fun leaf =>
    (extraction.enumConstant leaf).toOption

end Extraction

/-! ## §2 The main type -/

/-- The top-level container named like the file if that is preferred, else the first one. -/
def primaryContainer? (symbols : List DeclarationSymbol) (baseName : Text) (preferBaseName : Bool) :
    Option DeclarationSymbol :=
  let containers := symbols.filter fun symbol => symbol.kind.isContainer
  let named :=
    if preferBaseName then containers.find? fun symbol => symbol.bareName == baseName else none
  named.or containers.head?

/-- A model of the main type without comment and members. -/
def containerModel (document : DocumentId) (lines : List Text) (symbols : List DeclarationSymbol)
    (options : ModelOptions) : DocumentModel :=
  let packageName := findPackage lines
  match primaryContainer? symbols document.baseName options.preferFileNameContainer with
  | some container =>
    { document, packageName
      containerName := container.bareName
      containerLine := some container.startLine
      source := .symbols }
  | none =>
    let found := findContainer lines document.baseName options.preferFileNameContainer
    { document, packageName
      containerName := found.name
      containerLine := found.line
      source := .textFallback }

/-! ## §3 The whole document -/

/-- The model of a document from its text and outline. -/
def buildModel (document : DocumentId) (text : Text) (symbols : List DeclarationSymbol)
    (options : ModelOptions) : DocumentModel :=
  let lines := text.lines
  let model := containerModel document lines symbols options
  let comment := model.containerLine.bind fun line => locateComment lines line.toNat
  let doc := comment.map fun block => DocComment.parse block.text
  let tags : TagTable := doc.elim {} fun doc => TagTable.ofSection doc.tagSection none
  let extraction : Extraction :=
    { lines, options, containerComment := comment.map CommentBlock.text }
  let members := leaves symbols
  DocumentModel.sortMembers
    { model with
      hasComment := doc.isSome
      description := doc.elim [] DocComment.description
      author := tags.author
      since := tags.since
      methods := extraction.methods members
      fields := extraction.fields members
      enumConstants := extraction.enumConstants members }

end DeclDocs
