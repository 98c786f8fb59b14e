import DeclDocs.Model.Build
import DeclDocs.Proofs.Offsets.Comments
import DeclDocs.Proofs.Offsets.Declarations
import DeclDocs.Proofs.Offsets.Signatures

/-!
# Documents read by offset

The model of a document is built by functions that find byte offsets, indices and counts, and then
cut, look up and subtract.  Here they are put together to the whole way from text and outline to the
model.  Every operation that has no result on some arguments is a checked one, and for no document
does a check fail.

* `Offsets.findContainer_eq`, `Offsets.tagTable_eq`: the main type and the tags of a comment.
* `Offsets.method_eq`, `Offsets.field_eq`, `Offsets.enumConstant_eq`: the members.
* `Offsets.buildModel_eq_ok`: the model, without a fault.
-/

namespace DeclDocs

namespace Offsets

/-! ## §1 Values that may be absent, and several at once -/

section Checks

variable {α β : Type}

theorem mapM_option_eq {f : α → Checked β} {g : α → β} (h : ∀ a, f a = pure (g a))
    (a? : Option α) : a?.mapM f = pure (a?.map g) := by
  cases a? with
  | none => rfl
  | some a =>
    show some <$> f a = _
    rw [h, map_pure]
    rfl

/-- The results of the usable members among the leaves. -/
def usable (leaves : List Leaf) (read : Leaf → Checked (Except ExtractionError β)) :
    Checked (List β) := do
  let results ← leaves.mapM read
  return results.filterMap Except.toOption

theorem usable_eq {read : Leaf → Checked (Except ExtractionError β)}
    {result : Leaf → Except ExtractionError β} (h : ∀ leaf, read leaf = pure (result leaf))
    (leaves : List Leaf) :
    usable leaves read = pure (leaves.filterMap fun leaf => (result leaf).toOption) := by
  obtain rfl : read = fun leaf => pure (result leaf) := funext h
  rw [usable, List.mapM_pure, pure_bind, List.filterMap_map]
  rfl

end Checks

/-! ## §2 Tags -/

/-- The tag of a `throws` block; without a leading name the whole content is the description. -/
def throwsTag (content : Text) : Checked ThrowsTag :=
  let (word, description) := TagTable.firstWord content
  let stop := (word.findByte fun c => !TagTable.isExceptionChar c).getD word.byteLength
  if stop = 0 then pure ⟨unknownType, content⟩
  else do return ⟨← word.upToByte stop, description⟩

/-- The table with a further block. -/
def addTag (signature : Option Signature) (table : TagTable) (block : TagBlock) :
    Checked TagTable :=
  match block.kind with
  | .throws => do return { table with throws := table.throws ++ [← throwsTag block.content] }
  | _ => pure (table.add signature block)

/-- The tags of a section. -/
def tagTable (tagText : Text) (signature : Option Signature) : Checked TagTable :=
  (TagBlock.ofSection tagText).foldlM (addTag signature) {}

theorem throwsTag_eq (content : Text) : throwsTag content = pure (TagTable.throwsTag content) := by
  rcases hword : TagTable.firstWord content with ⟨word, description⟩
  have hstop : (word.findByte fun c => !TagTable.isExceptionChar c).getD word.byteLength =
      Text.byteLength (word.takeWhile TagTable.isExceptionChar) := by
    rw [Text.findByte_getD]
    simp only [Bool.not_not]
  have hcut : word.upToByte (Text.byteLength (word.takeWhile TagTable.isExceptionChar)) =
      pure (word.takeWhile TagTable.isExceptionChar) := by
    have happend := Text.upToByte_append (word.takeWhile TagTable.isExceptionChar)
      (word.dropWhile TagTable.isExceptionChar)
    rwa [List.takeWhile_append_dropWhile] at happend
  simp only [throwsTag, TagTable.throwsTag, hword, hstop, Text.byteLength_eq_zero_iff,
    List.isEmpty_iff, hcut, pure_bind]
  split <;> rfl

theorem addTag_eq (signature : Option Signature) (table : TagTable) (block : TagBlock) :
    addTag signature table block = pure (table.add signature block) := by
  rw [addTag]
  split
  case h_1 hkind =>
    rw [throwsTag_eq, pure_bind, TagTable.add, hkind]
  case h_2 => rfl

theorem tagTable_eq (tagText : Text) (signature : Option Signature) :
    tagTable tagText signature = pure (TagTable.ofSection tagText signature) := by
  have hadd : addTag signature = fun table block => pure (table.add signature block) :=
    funext fun table => funext fun block => addTag_eq signature table block
  rw [tagTable, hadd, List.foldlM_pure]
  rfl

/-! ## §3 Members -/

section Members

variable (extraction : Extraction) (leaf : Leaf)

/-- The comment above a member, unless it is the main type's own. -/
def memberComment (line : UInt32) : Checked (Option DocComment) := do
  match ← locateComment extraction.lines line.toNat with
  | none => return none
  | some block =>
    if extraction.containerComment = some block.text then return none
    else return some (← parseComment block.text)

/-- The documentation of a callable with the given signature. -/
def methodDoc (parsed : Signature) : Checked MethodDoc := do
  let symbol := leaf.symbol
  let signature := Extraction.memberSignature leaf parsed
  let comment ← memberComment extraction symbol.startLine
  let tags ← comment.mapM fun doc => tagTable doc.tagSection (some signature)
  let declaration ← stripAnnotations signature.text
  return {
    id := MethodDoc.makeId symbol.bareName symbol.startLine
    kind := if Extraction.isConstructor leaf parsed then .constructor else .method
    name := symbol.bareName
    displaySignature := signature.display symbol.bareName
    signature := signature.text
    parameters := signature.parameters
    returnType := signature.returnType
    startLine := symbol.startLine
    endLine := symbol.endLine
    hasComment := comment.isSome
    description := comment.elim [] DocComment.description
    tags := tags.getD {}
    owner := leaf.owner
    visibility := Visibility.ofDeclaration declaration }

/-- The documentation of a callable. -/
def method : Checked (Except ExtractionError MethodDoc) := do
  let start := leaf.symbol.startLine.toNat
  match ← extractSignature extraction.lines start extraction.options.maxSignatureLines with
  | .error error => return .error error
  | .ok text =>
    let signature ← parseSignature text
    if (findCode signature.text '(').isSome then return .ok (← methodDoc extraction leaf signature)
    else return .error (.noParameterList leaf.symbol.bareName)

/-- The documentation of a field. -/
def field : Checked (Except ExtractionError FieldDoc) :=
  let symbol := leaf.symbol
  match extraction.line symbol.startLine with
  | .error error => pure (.error error)
  | .ok line => do
    let comment ← memberComment extraction symbol.startLine
    return .ok {
      name := symbol.bareName
      typeName := ← fieldType line
      declaration := line.trim
      startLine := symbol.startLine
      hasComment := comment.isSome
      description := comment.elim [] DocComment.description
      isConstant := symbol.kind == .constant || isConstantLine line
      visibility := Visibility.ofDeclaration (scanLine line).code
      owner := leaf.owner }

/-- The documentation of an enum constant. -/
def enumConstant : Checked (Except ExtractionError EnumConstantDoc) :=
  let symbol := leaf.symbol
  match extraction.line symbol.startLine with
  | .error error => pure (.error error)
  | .ok line => do
    let comment ← memberComment extraction symbol.startLine
    return .ok {
      name := symbol.bareName
      startLine := symbol.startLine
      hasComment := comment.isSome
      description := comment.elim [] DocComment.description
      arguments := ← enumArguments line
      owner := leaf.owner }

theorem memberComment_eq (line : UInt32) :
    memberComment extraction line = pure (extraction.memberComment? line) := by
  rw [memberComment, locateComment_eq, pure_bind, Extraction.memberComment?]
  cases DeclDocs.locateComment extraction.lines line.toNat with
  | none => rfl
  | some block =>
    simp only [parseComment_eq, pure_bind]
    split <;> rfl

theorem methodDoc_eq (parsed : Signature) :
    methodDoc extraction leaf parsed = pure (extraction.methodDoc leaf parsed) := by
  have htags := mapM_option_eq fun doc : DocComment =>
    tagTable_eq doc.tagSection (some (Extraction.memberSignature leaf parsed))
  simp only [methodDoc, memberComment_eq, pure_bind, htags, stripAnnotations_eq,
    Extraction.methodDoc]
  cases extraction.memberComment? leaf.symbol.startLine <;> rfl

theorem method_eq : method extraction leaf = pure (extraction.method leaf) := by
  simp only [method, extractSignature_eq, pure_bind, Extraction.method]
  cases DeclDocs.extractSignature extraction.lines leaf.symbol.startLine.toNat
      extraction.options.maxSignatureLines with
  | error error => rfl
  | ok text =>
    have hlist : (findCode (Signature.parse text).text '(').isSome =
        (Signature.parse text).hasParameterList := by
      rw [findCode_eq (by decide), Option.isSome_map, Signature.hasParameterList, cutCode?,
        Option.isSome_map]
    simp only [parseSignature_eq, pure_bind, hlist, methodDoc_eq]
    split <;> rfl

theorem field_eq : field extraction leaf = pure (extraction.field leaf) := by
  simp only [field, Extraction.field]
  cases extraction.line leaf.symbol.startLine with
  | error error => rfl
  | ok line => simp only [memberComment_eq, pure_bind, fieldType_eq]

theorem enumConstant_eq : enumConstant extraction leaf = pure (extraction.enumConstant leaf) := by
  simp only [enumConstant, Extraction.enumConstant]
  cases extraction.line leaf.symbol.startLine with
  | error error => rfl
  | ok line => simp only [memberComment_eq, pure_bind, enumArguments_eq]

end Members

/-! ## §4 The main type -/

/-- The main type of the document, by its index among the types found in the text. -/
def findContainer (lines : List Text) (baseName : Text) (preferBaseName : Bool) :
    Checked TextContainer :=
  let found := topLevelTypes {} 0 0 lines
  let preferred := if preferBaseName then found.findIdx? fun (name, _) => name == baseName else none
  match preferred.or (if found.isEmpty then none else some 0) with
  | some index => do
    let (name, line) ← Checked.item found index
    return ⟨name, lineNumber? line⟩
  | none => pure ⟨if baseName.isEmpty then placeholderName else baseName, none⟩

/-- A model of the main type without comment and members. -/
def containerModel (document : DocumentId) (lines : List Text) (symbols : List DeclarationSymbol)
    (options : ModelOptions) : Checked DocumentModel :=
  let packageName := findPackage lines
  match primaryContainer? symbols document.baseName options.preferFileNameContainer with
  | some container => pure
    { document, packageName
      containerName := container.bareName
      containerLine := some container.startLine
      source := .symbols }
  | none => do
    let found ← findContainer lines document.baseName options.preferFileNameContainer
    return {
      document, packageName
      containerName := found.name
      containerLine := found.line
      source := .textFallback }

/-- An index that a search gives is one of the list. -/
theorem item_findIdx? {α : Type} {p : α → Bool} {all : List α} {index : Nat}
    (h : all.findIdx? p = some index) :
    ∃ a, all.find? p = some a ∧ Checked.item all index = pure a := by
  obtain ⟨hindex, -⟩ := List.findIdx?_eq_some_iff_getElem.mp h
  have hitem : all[index]? = some all[index] := List.getElem?_eq_getElem hindex
  refine ⟨all[index], ?_, Checked.item_eq hitem⟩
  rw [List.find?_eq_bind_findIdx?_getElem?, h, Option.bind_some, hitem]

theorem findContainer_eq (lines : List Text) (baseName : Text) (preferBaseName : Bool) :
    findContainer lines baseName preferBaseName =
      pure (DeclDocs.findContainer lines baseName preferBaseName) := by
  simp only [findContainer, DeclDocs.findContainer]
  generalize topLevelTypes {} 0 0 lines = found
  cases preferBaseName with
  | false => cases found <;> rfl
  | true =>
    simp only [if_true]
    cases hindex : found.findIdx? fun (name, _) => name == baseName with
    | none =>
      rw [List.find?_eq_bind_findIdx?_getElem?, hindex]
      cases found <;> rfl
    | some index =>
      obtain ⟨⟨name, line⟩, hfind, hitem⟩ := item_findIdx? hindex
      rw [hfind, Option.some_or, Option.some_or]
      simp only [hitem, pure_bind]

theorem containerModel_eq (document : DocumentId) (lines : List Text)
    (symbols : List DeclarationSymbol) (options : ModelOptions) :
    containerModel document lines symbols options =
      pure (DeclDocs.containerModel document lines symbols options) := by
  rw [containerModel, DeclDocs.containerModel]
  cases primaryContainer? symbols document.baseName options.preferFileNameContainer with
  | some container => rfl
  | none => simp only [findContainer_eq, pure_bind]

/-! ## §5 The whole document -/

/-- The model of a document from its text and outline, by checked operations only. -/
def buildModel (document : DocumentId) (text : Text) (symbols : List DeclarationSymbol)
    (options : ModelOptions) : Checked DocumentModel := do
  let lines := text.lines
  let model ← containerModel document lines symbols options
  let comment ← model.containerLine.mapM fun line => locateComment lines line.toNat
  let comment := comment.join
  let doc ← comment.mapM fun block => parseComment block.text
  let tags ← doc.mapM fun doc => tagTable doc.tagSection none
  let tags := tags.getD {}
  let extraction : Extraction :=
    { lines, options, containerComment := comment.map CommentBlock.text }
  let members := leaves symbols
  let methods ← usable (members.filter fun leaf => leaf.symbol.kind.isCallable)
    (method extraction)
  let fields ← usable (members.filter fun leaf => leaf.symbol.kind.isDataMember)
    (field extraction)
  let enumConstants ← usable (members.filter fun leaf => leaf.symbol.kind.isEnumConstant)
    (enumConstant extraction)
  return DocumentModel.sortMembers
    { model with
      hasComment := doc.isSome
      description := doc.elim [] DocComment.description
      author := tags.author
      since := tags.since
      methods, fields, enumConstants }

/-- **No fault occurs**: for every document, text, outline and choice of options the checked
operations have a result at every step, and together they give the model of the document. -/
theorem buildModel_eq_ok (document : DocumentId) (text : Text) (symbols : List DeclarationSymbol)
    (options : ModelOptions) :
    buildModel document text symbols options =
      .ok (DeclDocs.buildModel document text symbols options) := by
  show _ = pure _
  simp only [buildModel, containerModel_eq, pure_bind, DeclDocs.buildModel,
    mapM_option_eq fun line : UInt32 => locateComment_eq text.lines line.toNat,
    mapM_option_eq fun block : CommentBlock => parseComment_eq block.text,
    mapM_option_eq fun doc : DocComment => tagTable_eq doc.tagSection none,
    usable_eq (method_eq _), usable_eq (field_eq _), usable_eq (enumConstant_eq _),
    Extraction.methods, Extraction.fields, Extraction.enumConstants]
  cases (DeclDocs.containerModel document text.lines symbols options).containerLine with
  | none => rfl
  | some line =>
    simp only [Option.map_some, Option.join_some, Option.bind_some]
    cases DeclDocs.locateComment text.lines line.toNat <;> rfl

end Offsets

end DeclDocs
