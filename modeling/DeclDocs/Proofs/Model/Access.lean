import DeclDocs.Proofs.Declaration.MemberWords
import DeclDocs.Proofs.Model.Members
import DeclDocs.Proofs.Signature.DecoratedLine
import DeclDocs.Proofs.Signature.Squeezed

/-!
# Access level and constancy of members

The access level of a method is sought in its signature without the leading annotations, so the
words of its parameter list count behind the modifiers, and those of parameter annotations and of
literals among them.  For a field all words of its line count: those of its annotations come before
the modifiers, and those of its initialiser follow the name.  The modifiers alone decide where none
of the other words tells something.

* `MethodLine`, `FieldLine`: lines that declare a method or a field.
* `MethodLine.visibility_eq`: the words that tell the access level of a method.
* `FieldLine.visibility_eq`, `FieldLine.isConstantLine_eq`: those for a field.
* `buildModel_access`: what a model reports.
-/

namespace DeclDocs

open Text (isSolid beginsWith endsIn isKeywordChar collapse)

/-! ## §1 Methods -/

/-- The words of a member attract no notice. -/
theorem MemberHead.isUnnoticed_words (head : MemberHead) (gap : Padding) :
    ∀ c ∈ head.words ++ gap.text, isUnnoticed c = true := by
  intro c hc
  simp only [MemberHead.words, spread, List.mem_append, List.mem_flatMap] at hc
  rcases hc with (⟨part, _, hword | hblank⟩ | htype | hblank | hname) | hblank
  · have hchars := modifier_chars part.1.val (List.mem_append_left _ part.1.property)
    exact isUnnoticed_of_isInert (isInert_of_isModifierChar (hchars.2 c hword))
  · exact isUnnoticed_of_isInert (part.2.inert c hblank)
  · exact PlainDeclaration.isUnnoticed_type head.type c htype
  · exact isUnnoticed_of_isInert (head.between.inert c hblank)
  · exact PlainDeclaration.isUnnoticed_name head.name c hname
  · exact isUnnoticed_of_isInert (gap.inert c hblank)

private theorem MemberHead.passedOver (head : MemberHead) (gap : Padding) :
    PassedOver (head.text ++ gap.text) := by
  have hbegins : beginsWith isSolid (head.words ++ gap.text) = true :=
    Text.beginsWith_append
      (Text.beginsWith_mono (fun _ => isSolid_of_isDeclarationStart) head.begins_words) _
  rw [MemberHead.text, List.append_assoc]
  exact passedOver_row head.row hbegins (head.isUnnoticed_words gap)

/-- Blanks and a mark behind them stand between words. -/
theorem Padding.isKeywordChar_append (gap : Padding) {mark : Char}
    (hmark : isKeywordChar mark = false) : ∀ c ∈ gap.text ++ [mark], isKeywordChar c = false := by
  intro c hc
  rcases List.mem_append.mp hc with hblank | hlast
  · exact Text.isKeywordChar_of_isBlank (gap.blank c hblank)
  · rwa [List.mem_singleton.mp hlast]

/-- A line that declares a method.  Behind its parameter list anything may stand. -/
structure MethodLine where
  head : MemberHead
  gap : Padding
  list : Arguments
  rest : Text

namespace MethodLine

variable (line : MethodLine)

/-- The line as it is written. -/
def text : Text :=
  (line.head.text ++ line.gap.text) ++ '(' :: (line.list.text ++ ')' :: line.rest)

/-- The declaration from its modifiers to the end of its parameter list. -/
def body : Text :=
  (line.head.words ++ line.gap.text) ++ '(' :: (line.list.text ++ [')'])

/-- The text of its signature. -/
def signature : Text :=
  Text.squeeze (line.head.row.text ++ line.body)

theorem extractSignature_eq {lines : List Text} {start : Nat} (h : lines[start]? = some line.text)
    (maxLines : Nat) : extractSignature lines start maxLines = .ok line.signature := by
  rw [extractSignature_of_passedOver (line.head.passedOver line.gap) line.list h maxLines]
  simp [signature, body, MemberHead.text]

/-- The squeezed declaration: words in front of a parameter list. -/
theorem collapse_body : collapse false line.body =
    collapse false (line.head.words ++ line.gap.text) ++
      '(' :: (line.list.collapse.text ++ [')']) := by
  rw [body, Text.collapse_append_cons (by decide), Text.collapse_append_cons (by decide)]
  rfl

/-- The scanner reads the squeezed declaration with the parenthesis that opens its list. -/
theorem readsAs_collapse_body :
    ∃ glyphs, Glyph.code '(' ∈ glyphs ∧ ReadsAs (collapse false line.body) glyphs := by
  obtain ⟨glyphs, hshown, hread⟩ := line.list.collapse.readsAs
  have hplain : ReadsAs (collapse false (line.head.words ++ line.gap.text))
      ((collapse false (line.head.words ++ line.gap.text)).map Glyph.code) := by
    refine .of_plain fun c hc => ?_
    rcases Text.mem_collapse hc with hmem | rfl
    · exact (Bool.and_eq_true_iff.mp (line.head.isUnnoticed_words line.gap c hmem)).1
    · decide
  have hopen : Glyph.code '(' ∈ glyphs := by
    have hmem : '(' ∈ glyphs.map Glyph.shown := by simp [hshown]
    obtain ⟨glyph, hglyph, heq⟩ := List.mem_map.mp hmem
    rwa [← (Glyph.shown_eq_iff (by decide)).mp heq]
  rw [collapse_body]
  exact ⟨_, List.mem_append_right _ hopen, hplain.append hread⟩

private theorem begins_body : beginsWith isDeclarationStart line.body = true :=
  Text.beginsWith_append (Text.beginsWith_append line.head.begins_words _) _

private theorem ends_body : endsIn isSolid line.body = true := by
  have hclose : endsIn isSolid [')'] = true := by decide
  rw [body, ← List.cons_append, ← List.append_assoc]
  exact Text.endsIn_append hclose _

private theorem stripAnnotations_signature :
    stripAnnotations line.signature = collapse false line.body := by
  obtain ⟨glyphs, -, hread⟩ := line.readsAs_collapse_body
  exact stripAnnotations_squeeze line.head.row line.begins_body line.ends_body hread.scannedWhole

/-- The parameter list is found again in the signature. -/
theorem hasParameterList_signature {lines : List Text} {start maxLines : Nat}
    (h : extractSignature lines start maxLines = .ok line.signature) :
    (Signature.parse line.signature).hasParameterList = true := by
  obtain ⟨body, hopen, hbody⟩ := line.readsAs_collapse_body
  obtain ⟨front, hfront⟩ := exists_readsAs_rowText line.head.row.collapse.parts
  have hread : ReadsAs line.signature (front ++ body) := by
    have hsolid := Text.beginsWith_mono (fun _ => isSolid_of_isDeclarationStart) line.begins_body
    rw [signature, squeeze_row_append line.head.row hsolid line.ends_body]
    exact hfront.append hbody
  have hscan := congrArg ScannedLine.glyphs (hread.scan [])
  rw [List.append_nil] at hscan
  rw [hasParameterList_iff_mem h, scanLine, hscan]
  simp [ScannedLine.prepend, hopen]

/-- **The access level of a method** is that of the first access word among its modifiers and the
words of its parameter list. -/
theorem visibility_eq : Visibility.ofDeclaration (stripAnnotations line.signature) =
    .ofWords (line.head.modifierWords ++ line.list.text.keywords) := by
  have hgap := @Padding.isKeywordChar_append line.gap '(' (by decide +kernel)
  have hlist : (line.list.text ++ [')']).keywords = line.list.text.keywords := by
    have hclose : isKeywordChar ')' = false := by decide +kernel
    rw [Text.keywords_append_cons hclose]
    exact List.append_nil _
  have hbody : line.body =
      line.head.words ++ ((line.gap.text ++ ['(']) ++ (line.list.text ++ [')'])) := by
    simp [body]
  have hwords := line.head.telling_words hgap (by simp) (line.list.text ++ [')'])
  rw [← hbody, hlist] at hwords
  calc Visibility.ofDeclaration (stripAnnotations line.signature)
    _ = .ofWords (collapse false line.body).keywords := by
        rw [stripAnnotations_signature]
        rfl
    -- squeezing changes the width of gaps and no word
    _ = .ofWords (telling line.body.keywords) := by
        rw [Text.keywords_collapse, Visibility.ofWords_telling]
    _ = .ofWords (line.head.modifierWords ++ line.list.text.keywords) := by
        rw [hwords, Visibility.ofWords_telling]

/-- A callable on the line is documented with that level. -/
theorem method_eq (extraction : Extraction) {leaf : Leaf}
    (h : extraction.lines[leaf.symbol.startLine.toNat]? = some line.text) :
    ∃ doc, extraction.method leaf = .ok doc ∧
      doc.visibility = .ofWords (line.head.modifierWords ++ line.list.text.keywords) := by
  have hextract := line.extractSignature_eq h extraction.options.maxSignatureLines
  refine ⟨extraction.methodDoc leaf (Signature.parse line.signature), ?_, ?_⟩
  · exact Extraction.method_eq_ok_iff.mpr
      ⟨_, hextract, line.hasParameterList_signature hextract, rfl⟩
  · rw [← line.visibility_eq]
    -- a constructor keeps the text of its signature
    have htext : (Extraction.memberSignature leaf (Signature.parse line.signature)).text =
        line.signature := by
      unfold Extraction.memberSignature
      split <;> rfl
    rw [Extraction.methodDoc, htext]

end MethodLine

/-! ## §2 Fields -/

/-- A line that declares a field.  Behind its name a semicolon or an equals sign ends the
declaration or begins the initialiser. -/
structure FieldLine where
  head : MemberHead
  gap : Padding
  mark : Char
  isMark : mark = ';' ∨ mark = '='
  rest : Text

namespace FieldLine

variable (line : FieldLine)

/-- The line as it is written. -/
def text : Text :=
  (line.head.text ++ line.gap.text) ++ line.mark :: line.rest

/-- The words that tell something: of the annotations, the modifiers, and of the code behind the
name. -/
def words : List Text :=
  line.head.annotationWords ++ (line.head.modifierWords ++ (scanLine line.rest).code.keywords)

/-- What the scanner keeps of the line. -/
theorem code_text : (scanLine line.text).code =
    (line.head.text ++ line.gap.text) ++ line.mark :: (scanLine line.rest).code := by
  obtain ⟨glyphs, hread, -⟩ := line.head.passedOver line.gap
  have hmark : ReadsAs [line.mark] [.code line.mark] := by
    refine .of_plain fun c hc => ?_
    rw [List.mem_singleton.mp hc]
    rcases line.isMark with h | h <;> rw [h] <;> decide
  have hboth := hread.append hmark
  calc (scanLine line.text).code
    _ = (ScanState.scan {}
          (((line.head.text ++ line.gap.text) ++ [line.mark]) ++ line.rest)).code := by
        simp [scanLine, text]
    _ = codeOf (glyphs ++ [.code line.mark]) ++ (scanLine line.rest).code := by
        rw [hboth.scan]
        exact List.map_append
    _ = (line.head.text ++ line.gap.text) ++ line.mark :: (scanLine line.rest).code := by
        rw [hboth.code]
        simp

private theorem telling_keywords :
    telling (scanLine line.text).code.keywords = telling line.words := by
  have hmark : isKeywordChar line.mark = false := by
    rcases line.isMark with h | h <;> rw [h] <;> decide +kernel
  have hgap := line.gap.isKeywordChar_append hmark
  have htext := line.head.telling_text hgap (by simp) (scanLine line.rest).code
  rw [code_text, words, ← htext]
  simp

/-- **The access level of a field** is that of the first access word among all words of its line. -/
theorem visibility_eq :
    Visibility.ofDeclaration (scanLine line.text).code = .ofWords line.words := by
  rw [← Visibility.ofWords_telling line.words, ← telling_keywords, Visibility.ofWords_telling]
  rfl

/-- **A field is constant** if both words are among the words of its line. -/
theorem isConstantLine_eq : isConstantLine line.text = isConstantBy line.words := by
  rw [← isConstantBy_telling line.words, ← telling_keywords, isConstantBy_telling]
  rw [isConstantLine, memberCode, Text.keywords_trim]
  rfl

/-- A data member on the line is documented with that level and that constancy. -/
theorem field_eq (extraction : Extraction) {leaf : Leaf}
    (h : extraction.lines[leaf.symbol.startLine.toNat]? = some line.text) :
    ∃ doc, extraction.field leaf = .ok doc ∧ doc.visibility = .ofWords line.words ∧
      doc.isConstant = (leaf.symbol.kind == .constant || isConstantBy line.words) := by
  have hline : extraction.line leaf.symbol.startLine = .ok line.text := by rw [Extraction.line, h]
  rw [Extraction.field, hline]
  refine ⟨_, rfl, line.visibility_eq, ?_⟩
  rw [← line.isConstantLine_eq]

end FieldLine

/-! ## §3 The model -/

/-- A leaf that is read gives one of the sorted records. -/
theorem mem_sortByLine_of_read {α : Type} {line : α → UInt32}
    {read : Leaf → Except ExtractionError α} {isOfKind : Leaf → Bool} {leaves : List Leaf}
    {leaf : Leaf} {doc : α} (hleaf : leaf ∈ leaves)
    (hkind : isOfKind leaf = true) (hread : read leaf = .ok doc) :
    doc ∈ sortByLine line
      ((leaves.filter isOfKind).filterMap fun leaf => (read leaf).toOption) := by
  rw [(sortByLine_perm line _).mem_iff, List.mem_filterMap]
  refine ⟨leaf, List.mem_filter.mpr ⟨hleaf, hkind⟩, ?_⟩
  rw [hread]
  rfl

/-- **Access level and constancy in a model.**  A method has the level of the first access word
among its modifiers and the words of its parameter list, whatever its annotations say.  A field has
that of the first access word among the words of its annotations, its modifiers and the code behind
its name, and is constant if `static` and `final` are both among them. -/
theorem buildModel_access (document : DocumentId) (text : Text) (symbols : List DeclarationSymbol)
    (options : ModelOptions) {leaf : Leaf} (hleaf : leaf ∈ leaves symbols) :
    let model := buildModel document text symbols options
    let extraction := documentExtraction document text symbols options
    (∀ method : MethodLine, leaf.symbol.kind.isCallable = true →
      text.lines[leaf.symbol.startLine.toNat]? = some method.text →
      ∃ doc ∈ model.methods, extraction.method leaf = .ok doc ∧
        doc.visibility = .ofWords (method.head.modifierWords ++ method.list.text.keywords)) ∧
    (∀ field : FieldLine, leaf.symbol.kind.isDataMember = true →
      text.lines[leaf.symbol.startLine.toNat]? = some field.text →
      ∃ doc ∈ model.fields, extraction.field leaf = .ok doc ∧
        doc.visibility = .ofWords field.words ∧
        (leaf.symbol.kind = .field →
          (doc.isConstant = true ↔
            "static".toList ∈ field.words ∧ "final".toList ∈ field.words))) := by
  intro model extraction
  -- the line alone settles the record, so the rest of the document does not matter
  refine ⟨fun method hkind hline => ?_, fun field hkind hline => ?_⟩
  · obtain ⟨doc, hdoc, hlevel⟩ := method.method_eq extraction hline
    exact ⟨doc, mem_sortByLine_of_read hleaf hkind hdoc, hdoc, hlevel⟩
  · obtain ⟨doc, hdoc, hlevel, hconstant⟩ := field.field_eq extraction hline
    refine ⟨doc, mem_sortByLine_of_read hleaf hkind hdoc, hdoc, hlevel, fun hfield => ?_⟩
    rw [hconstant, hfield]
    simp [isConstantBy]

/-- `@Role("public")`, modifiers and `int x`, with blanks in front of the arguments and behind
them. -/
def roleHead (gap after : Padding) (modifiers : List ({word // word ∈ modifiers} × Separator)) :
    MemberHead where
  row :=
    { indent := .empty
      parts := [⟨"Role".toList, ⟨by decide, by decide, by decide⟩,
        some (gap, ⟨"\"public\"".toList, "\"      \"".toList, by decide, by decide⟩), after⟩]
      apart := by simp }
  modifiers := modifiers
  type := ⟨"int".toList, by decide, by decide, by decide, by decide⟩
  between := Separator.space.toPadding
  apart := by decide
  name := ⟨"x".toList, by decide, by decide⟩
  plainType := by decide +kernel
  plainName := by decide

/-- `@Role ("public")protected int x(int y);` -/
def roleMethod : MethodLine where
  head := roleHead Separator.space.toPadding .empty [(⟨"protected".toList, by decide⟩, .space)]
  gap := .empty
  list := ⟨"int y".toList, "int y".toList, by decide, by decide⟩
  rest := ";".toList

/-- `@Role("public") int x;` -/
def roleField : FieldLine where
  head := roleHead .empty Separator.space.toPadding []
  gap := .empty
  mark := ';'
  isMark := .inl rfl
  rest := []

/-- `@Role("public") final int x = f("static");` -/
def roleConstant : FieldLine where
  head := roleHead .empty Separator.space.toPadding [(⟨"final".toList, by decide⟩, .space)]
  gap := Separator.space.toPadding
  mark := '='
  isMark := .inr rfl
  rest := " f(\"static\");".toList

def roleText : Text :=
  roleMethod.text ++ '\n' :: roleConstant.text

def roleOutline : List DeclarationSymbol :=
  [.leaf "x()".toList .method (.ofLines 0 0), .leaf "x".toList .field (.ofLines 1 1)]

/-- The argument of the annotation leaves the method protected and makes the field public, and the
initialiser makes the field constant. -/
theorem buildModel_access_role :
    let model := buildModel ⟨"A.java".toList⟩ roleText roleOutline {}
    (∃ doc ∈ model.methods, doc.visibility = .isProtected) ∧
      ∃ doc ∈ model.fields, doc.visibility = .isPublic ∧ doc.isConstant = true := by
  have hleaves : leaves roleOutline =
      [⟨.leaf "x()".toList .method (.ofLines 0 0), "unknown".toList⟩,
        ⟨.leaf "x".toList .field (.ofLines 1 1), "unknown".toList⟩] := rfl
  have hlines : roleText.lines = [roleMethod.text, roleConstant.text] := by
    decide +kernel
  intro model
  constructor
  · have haccess := (buildModel_access ⟨"A.java".toList⟩ roleText roleOutline {}
      (hleaves ▸ List.mem_cons_self)).1 roleMethod rfl (by rw [hlines]; rfl)
    obtain ⟨doc, hmem, -, hlevel⟩ := haccess
    refine ⟨doc, hmem, hlevel.trans ?_⟩
    decide +kernel
  · have haccess := (buildModel_access ⟨"A.java".toList⟩ roleText roleOutline {}
      (hleaves ▸ List.mem_cons_of_mem _ List.mem_cons_self)).2 roleConstant rfl
        (by rw [hlines]; rfl)
    obtain ⟨doc, hmem, -, hlevel, hconstant⟩ := haccess
    refine ⟨doc, hmem, hlevel.trans ?_, (hconstant rfl).mpr ?_⟩
    · decide +kernel
    · decide +kernel

/-- **The modifiers of a field do not decide alone**: it is public where an argument of its
annotation says so. -/
theorem not_forall_field_visibility_of_modifiers :
    ¬ ∀ (document : DocumentId) (text : Text) (symbols : List DeclarationSymbol)
        (options : ModelOptions) (leaf : Leaf) (field : FieldLine), leaf ∈ leaves symbols →
        leaf.symbol.kind.isDataMember = true →
        text.lines[leaf.symbol.startLine.toNat]? = some field.text →
        ∃ doc ∈ (buildModel document text symbols options).fields,
          (documentExtraction document text symbols options).field leaf = .ok doc ∧
            doc.visibility = .ofWords field.head.modifierWords := by
  intro hall
  let leaf : Leaf := ⟨.leaf "x".toList .field (.ofLines 0 0), "unknown".toList⟩
  let extraction :=
    documentExtraction ⟨"A.java".toList⟩ roleField.text [leaf.symbol] {}
  have hline : extraction.lines[leaf.symbol.startLine.toNat]? = some roleField.text := by
    have hlines : extraction.lines = [roleField.text] := by decide +kernel
    rw [hlines]
    rfl
  obtain ⟨doc, -, hdoc, hpackage⟩ := hall ⟨"A.java".toList⟩ roleField.text [leaf.symbol] {}
    leaf roleField List.mem_cons_self rfl hline
  obtain ⟨doc', hdoc', hpublic, -⟩ := roleField.field_eq extraction hline
  have hsame : doc = doc' := Except.ok.inj (hdoc.symm.trans hdoc')
  rw [← hsame, hpackage] at hpublic
  exact absurd hpublic (by decide +kernel)

end DeclDocs
