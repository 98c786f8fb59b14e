import DeclDocs.Proofs.Model.Enclosing

/-!
# The records of a model agree

Whatever the outline and the text say, the fields of the records that are built from them fit
together: what a record shows is made from what it holds, tags speak of the signature of their own
method, and a record without a comment says nothing that only a comment could say.

* `ParamTag.IsTyped`, `TagTable.Fits`: tags and the signature that they document.
* `MethodDoc.IsCoherent`, `DocumentModel.IsCoherent`: what the fields of the records have to do with
  each other.
* `buildModel_isCoherent`: all of it holds of every model that is built.
-/

namespace DeclDocs

/-! ## §1 Tags and signatures -/

/-- The name stands in angle brackets. -/
def IsBracketed (name : Text) : Prop :=
  ∃ inner, name = '<' :: (inner ++ ['>'])

/-- The type of a tag is that of the parameter it names: the first one of that name. -/
structure ParamTag.IsTyped (parameters : List Parameter) (tag : ParamTag) : Prop where
  typeParameter : IsBracketed tag.name → tag.typeName = "type-parameter"
  declared : ¬ IsBracketed tag.name → ∀ before parameter after,
    parameters = before ++ parameter :: after → (∀ other ∈ before, other.name ≠ tag.name) →
    parameter.name = tag.name → tag.typeName = parameter.typeName
  unknown : ¬ IsBracketed tag.name → (∀ parameter ∈ parameters, parameter.name ≠ tag.name) →
    tag.typeName = "unknown"

namespace TagTable

private theorem isTypeParameterName_iff {name : Text} :
    isTypeParameterName name = true ↔ IsBracketed name := by
  rw [isTypeParameterName, Bool.and_eq_true, beq_iff_eq, beq_iff_eq, List.head?_eq_some_iff,
    List.getLast?_eq_some_iff]
  constructor
  · rintro ⟨⟨rest, rfl⟩, inner, hinner⟩
    cases inner with
    | nil => simp at hinner
    | cons c inner =>
      rw [List.cons_append, List.cons.injEq] at hinner
      exact ⟨inner, by rw [hinner.2]⟩
  · rintro ⟨inner, rfl⟩
    exact ⟨⟨_, rfl⟩, '<' :: inner, rfl⟩

/-- The tags speak of the parameters and of the return type of the signature. -/
structure Fits (signature : Signature) (table : TagTable) : Prop where
  params : ∀ tag ∈ table.params, tag.IsTyped signature.parameters
  returns : ∀ tag, table.returns = some tag → signature.returnType = some tag.typeName

private theorem isTyped_of_paramTag? {signature : Signature} {content : Text} {tag : ParamTag}
    (h : paramTag? (some signature) content = some tag) : tag.IsTyped signature.parameters := by
  rw [paramTag?] at h
  dsimp only [Option.bind_some] at h
  split at h
  case isTrue => simp at h
  case isFalse =>
    obtain rfl := Option.some.inj h
    refine ⟨fun hname => ?_, fun hname before parameter after heq hbefore hparameter => ?_,
      fun hname hnone => ?_⟩
    · exact if_pos (isTypeParameterName_iff.mpr hname)
    all_goals
      dsimp only at *
      rw [if_neg (mt isTypeParameterName_iff.mp hname), Signature.typeOf?]
    · -- the parameters in front of the first one of the name are passed over
      rw [heq, List.find?_append, List.find?_eq_none.mpr (by simpa using hbefore)]
      simp [hparameter]
    · rw [List.find?_eq_none.mpr (by simpa using hnone)]
      rfl

theorem Fits.add {signature : Signature} {table : TagTable} (h : table.Fits signature)
    (block : TagBlock) : (table.add (some signature) block).Fits signature := by
  rw [TagTable.add]
  split
  case h_1 =>
    refine ⟨fun tag hmem => ?_, h.returns⟩
    rcases List.mem_append.mp hmem with hold | hnew
    · exact h.params tag hold
    · exact isTyped_of_paramTag? (Option.mem_toList.mp hnew)
  case h_2 =>
    split
    case h_1 typeName htype =>
      refine ⟨h.params, fun tag htag => ?_⟩
      obtain rfl := Option.some.inj htag
      exact htype
    case h_2 => exact h
  all_goals exact ⟨h.params, h.returns⟩

/-- The tags of a section fit the signature that it documents. -/
theorem fits_ofSection (tagText : Text) (signature : Signature) :
    (ofSection tagText (some signature)).Fits signature := by
  have hrun : ∀ (blocks : List TagBlock) (table : TagTable), table.Fits signature →
      (blocks.foldl (TagTable.add (some signature)) table).Fits signature := by
    intro blocks
    induction blocks with
    | nil => exact fun table h => h
    | cons block blocks ih => exact fun table h => ih _ (h.add block)
  exact hrun _ _ ⟨by simp, by simp⟩

end TagTable

/-! ## §2 Methods -/

/-- The fields of a method's record agree. -/
structure MethodDoc.IsCoherent (doc : MethodDoc) : Prop where
  lines : doc.startLine ≤ doc.endLine
  squeezed : doc.signature.IsSqueezed
  display : doc.displaySignature =
    doc.name ++ "(" ++ Text.join ", " (doc.parameters.map Parameter.typeName) ++ ")"
  constructor : doc.kind = .constructor → doc.returnType = none
  returns : ∀ tag, doc.tags.returns = some tag →
    doc.hasComment = true ∧ doc.returnType = some tag.typeName
  params : ∀ tag ∈ doc.tags.params, tag.IsTyped doc.parameters
  uncommented : doc.hasComment = false → doc.description = [] ∧ doc.tags = {}

/-- A signature with a parameter list is squeezed text. -/
theorem isSqueezed_of_extractSignature {lines : List Text} {start maxLines : Nat} {text : Text}
    (h : extractSignature lines start maxLines = .ok text)
    (hlist : (Signature.parse text).hasParameterList = true) : text.IsSqueezed := by
  obtain ⟨-, rfl⟩ := eq_of_extractSignature h
  refine Text.isSqueezed_squeeze fun hwords => ?_
  -- without a word there is no parenthesis
  rw [Text.squeeze, hwords] at hlist
  exact absurd hlist (by decide)

namespace Extraction

variable {extraction : Extraction} {leaf : Leaf}

/-- Without a comment there is no description. -/
theorem description_eq_nil {comment : Option DocComment} (h : comment.isSome = false) :
    comment.elim [] DocComment.description = [] := by
  cases comment with
  | none => rfl
  | some comment => cases h

/-- A constructor returns nothing once its signature is that of a member. -/
theorem returnType_memberSignature {signature : Signature}
    (h : isConstructor leaf signature = true) :
    (memberSignature leaf signature).returnType = none := by
  rw [memberSignature, if_pos h]

private theorem text_memberSignature (leaf : Leaf) (signature : Signature) :
    (memberSignature leaf signature).text = signature.text := by
  rw [memberSignature]
  split <;> rfl

private theorem isCoherent_methodDoc (extraction : Extraction) (leaf : Leaf) {signature : Signature}
    (h : signature.text.IsSqueezed) : (extraction.methodDoc leaf signature).IsCoherent where
  lines := DeclarationSymbol.startLine_le_endLine
  squeezed := by
    rw [methodDoc]
    dsimp only
    rwa [text_memberSignature]
  display := rfl
  constructor := by
    intro hkind
    refine returnType_memberSignature ?_
    -- the same test gives the kind
    by_contra hnot
    rw [methodDoc] at hkind
    simp [hnot] at hkind
  returns := by
    rw [methodDoc]
    dsimp only
    cases extraction.memberComment? leaf.symbol.startLine with
    | none => simp
    | some comment =>
      -- tags are read with the signature of the member, after a constructor has lost its type
      exact fun tag htag => ⟨rfl, (TagTable.fits_ofSection _ _).returns tag htag⟩
  params := by
    rw [methodDoc]
    dsimp only
    cases extraction.memberComment? leaf.symbol.startLine with
    | none => simp
    | some comment => exact (TagTable.fits_ofSection _ _).params
  uncommented := by
    rw [methodDoc]
    dsimp only
    cases extraction.memberComment? leaf.symbol.startLine with
    | none => exact fun _ => ⟨rfl, rfl⟩
    | some comment => simp

private theorem isCoherent_of_method {doc : MethodDoc}
    (h : (extraction.method leaf).toOption = some doc) : doc.IsCoherent := by
  obtain ⟨text, htext, hlist, rfl⟩ := method_eq_ok_iff.mp (toOption_eq_some_iff.mp h)
  exact extraction.isCoherent_methodDoc leaf (isSqueezed_of_extractSignature htext hlist)

private theorem startLine_lt_of_method {doc : MethodDoc}
    (h : (extraction.method leaf).toOption = some doc) :
    doc.startLine.toNat < extraction.lines.length := by
  obtain ⟨text, htext, -, rfl⟩ := method_eq_ok_iff.mp (toOption_eq_some_iff.mp h)
  exact (eq_of_extractSignature htext).1

/-! ## §3 Fields and constants -/

theorem lt_of_line {index : UInt32} {line : Text} (h : extraction.line index = .ok line) :
    index.toNat < extraction.lines.length := by
  have hsome := extraction.isSome_line index
  rw [h] at hsome
  simpa [Except.toOption] using hsome.symm

private theorem field_spec {doc : FieldDoc} (h : (extraction.field leaf).toOption = some doc) :
    doc.startLine.toNat < extraction.lines.length ∧
      (doc.hasComment = false → doc.description = []) := by
  rw [field] at h
  cases hline : extraction.line leaf.symbol.startLine with
  | error error => simp [hline, Except.toOption] at h
  | ok line =>
    rw [hline] at h
    obtain rfl := Option.some.inj h
    exact ⟨lt_of_line hline, description_eq_nil⟩

private theorem enumConstant_spec {doc : EnumConstantDoc}
    (h : (extraction.enumConstant leaf).toOption = some doc) :
    doc.startLine.toNat < extraction.lines.length ∧
      (doc.hasComment = false → doc.description = []) := by
  rw [enumConstant] at h
  cases hline : extraction.line leaf.symbol.startLine with
  | error error => simp [hline, Except.toOption] at h
  | ok line =>
    rw [hline] at h
    obtain rfl := Option.some.inj h
    exact ⟨lt_of_line hline, description_eq_nil⟩

end Extraction

/-! ## §4 The whole document -/

/-- The records on the lines of a document, in the order of their lines. -/
structure AreLined {α : Type} (line : α → UInt32) (lineCount : Nat) (records : List α) : Prop where
  sorted : records.Pairwise fun a b => line a ≤ line b
  inside : ∀ record ∈ records, (line record).toNat < lineCount

/-- The records of a model for a document of that many lines and with that outline agree. -/
structure DocumentModel.IsCoherent (lineCount : Nat) (symbols : List DeclarationSymbol)
    (model : DocumentModel) : Prop where
  methodLines : AreLined MethodDoc.startLine lineCount model.methods
  fieldLines : AreLined FieldDoc.startLine lineCount model.fields
  constantLines : AreLined EnumConstantDoc.startLine lineCount model.enumConstants
  methods : ∀ doc ∈ model.methods, doc.IsCoherent
  fields : ∀ doc ∈ model.fields, doc.hasComment = false → doc.description = []
  constants : ∀ doc ∈ model.enumConstants, doc.hasComment = false → doc.description = []
  uncommented : model.hasComment = false →
    model.description = [] ∧ model.author = none ∧ model.since = none
  source : model.source = .textFallback ↔ ∀ symbol ∈ symbols, symbol.kind.isContainer = false

/-- What holds of every result holds of the sorted results. -/
theorem forall_mem_sortByLine {α β ε : Type} {line : β → UInt32} {read : α → Except ε β}
    {kind : α → Bool} {p : β → Prop} (h : ∀ a b, (read a).toOption = some b → p b)
    (inputs : List α) : ∀ record ∈ sortByLine line
      ((inputs.filter kind).filterMap fun a => (read a).toOption), p record := by
  intro record hmem
  obtain ⟨a, _, ha⟩ := List.mem_filterMap.mp ((sortByLine_perm line _).mem_iff.mp hmem)
  exact h a record ha

/-- Without a container in the outline there is no main type in it. -/
theorem primaryContainer?_eq_none {symbols : List DeclarationSymbol} {baseName : Text}
    {preferBaseName : Bool} :
    primaryContainer? symbols baseName preferBaseName = none ↔
      ∀ symbol ∈ symbols, symbol.kind.isContainer = false := by
  rw [primaryContainer?, Option.or_eq_none_iff, List.head?_eq_none_iff, List.filter_eq_nil_iff]
  constructor
  · intro h symbol hmem
    simpa using h.2 symbol hmem
  · intro h
    have hnone : symbols.filter (fun symbol => symbol.kind.isContainer) = [] :=
      List.filter_eq_nil_iff.mpr fun symbol hmem => by simp [h symbol hmem]
    refine ⟨?_, fun symbol hmem => by simp [h symbol hmem]⟩
    rw [hnone]
    split <;> rfl

private theorem source_containerModel {document : DocumentId} {lines : List Text}
    {symbols : List DeclarationSymbol} {options : ModelOptions} :
    (containerModel document lines symbols options).source = .textFallback ↔
      ∀ symbol ∈ symbols, symbol.kind.isContainer = false := by
  rw [← @primaryContainer?_eq_none symbols document.baseName options.preferFileNameContainer,
    containerModel]
  cases primaryContainer? symbols document.baseName options.preferFileNameContainer <;> simp

/-- **The records of every model agree**, whatever outline and text it is built from. -/
theorem buildModel_isCoherent (document : DocumentId) (text : Text)
    (symbols : List DeclarationSymbol) (options : ModelOptions) :
    (buildModel document text symbols options).IsCoherent text.lines.length symbols where
  methodLines := ⟨pairwise_sortByLine _ _,
    forall_mem_sortByLine (fun _ _ => Extraction.startLine_lt_of_method) _⟩
  fieldLines := ⟨pairwise_sortByLine _ _,
    forall_mem_sortByLine (fun _ _ h => (Extraction.field_spec h).1) _⟩
  constantLines := ⟨pairwise_sortByLine _ _,
    forall_mem_sortByLine (fun _ _ h => (Extraction.enumConstant_spec h).1) _⟩
  methods := forall_mem_sortByLine (fun _ _ => Extraction.isCoherent_of_method) _
  fields := forall_mem_sortByLine (fun _ _ h => (Extraction.field_spec h).2) _
  constants := forall_mem_sortByLine (fun _ _ h => (Extraction.enumConstant_spec h).2) _
  uncommented := by
    rw [buildModel, DocumentModel.sortMembers]
    dsimp only
    cases ((containerModel document text.lines symbols options).containerLine.bind fun line =>
      locateComment text.lines line.toNat) <;> simp
  source := source_containerModel

end DeclDocs
