import DeclDocs.Model.Build
import DeclDocs.Proofs.Model.SortedRecords
import DeclDocs.Proofs.Model.WrittenClass
import Mathlib.Data.List.Perm.Basic

/-!
# Reading a written class

The model of a written class, given an outline of it, has one record for each of its methods in the
order of the text: every comment is found above its own declaration and past the comments of the
other methods, and comment and declaration are read as they were written.  The order of the outline
does not matter.

* `WrittenMethod.methodDoc`: the record of a method.
* `Extraction.method_eq`: the record is read from the text.
* `sortByLine_eq`: records with different lines are sorted in one way only.
* `buildModel_written`: the model of the class.
-/

namespace DeclDocs

/-! ## §1 The record of a method -/

namespace WrittenMethod

/-- The method constructs objects of the class: the outline says so, or it returns nothing and has
the name of the class. -/
def constructs (method : WrittenMethod) (owner : Identifier) (symbol : DeclarationSymbol) : Bool :=
  symbol.kind == .constructor ||
    (method.declaration.resultType.isNone && method.declaration.name.text == owner.text)

/-- The declared signature; a constructor returns nothing. -/
def signature (method : WrittenMethod) (owner : Identifier) (symbol : DeclarationSymbol) :
    Signature where
  text := method.declaration.text
  parameters := method.declaration.parameters.map fun (type, name) => ⟨name.text, type.text⟩
  returnType := if method.constructs owner symbol then none else method.declaration.resultType

/-- The record of the method in the class `owner`. -/
def methodDoc (method : WrittenMethod) (owner : Identifier) (symbol : DeclarationSymbol) :
    MethodDoc where
  id := method.declaration.name.text ++ ":" ++ decimal symbol.startLine.toNat
  kind := if method.constructs owner symbol then .constructor else .method
  name := method.declaration.name.text
  displaySignature := method.declaration.name.text ++ "(" ++
    Text.join ", " (method.declaration.parameters.map fun (type, _) => type.text) ++ ")"
  signature := method.declaration.text
  parameters := method.declaration.parameters.map fun (type, name) => ⟨name.text, type.text⟩
  returnType := if method.constructs owner symbol then none else method.declaration.resultType
  startLine := symbol.startLine
  endLine := symbol.endLine
  hasComment := true
  description := Text.join ['\n'] method.doc.description
  tags := method.doc.blocks.foldl (TagTable.add (some (method.signature owner symbol))) {}
  owner := owner.text
  visibility := Visibility.ofDeclaration method.declaration.text

end WrittenMethod

private theorem Leaf.ownerSimpleName_identifier (symbol : DeclarationSymbol) (owner : Identifier) :
    Leaf.ownerSimpleName ⟨symbol, owner.text⟩ = owner.text := by
  have hdot : '.' ∉ owner.text := fun hmem => absurd (owner.chars _ hmem) (by decide)
  have hnone : owner.text.has "." = false :=
    Text.has_eq_false_of_not_mem (m := '.') (by decide) hdot
  rw [ownerSimpleName, Text.cutLast?_eq_none hnone]
  rfl

theorem PlainDeclaration.stripAnnotations_text (declaration : PlainDeclaration) :
    stripAnnotations declaration.text = declaration.text := by
  have hstrip := declaration.written.stripAnnotations_text
  have hbody : declaration.written.body = declaration.written.text := rfl
  rwa [hbody, declaration.text_written] at hstrip

namespace Extraction

variable {extraction : Extraction} {method : WrittenMethod} {symbol : DeclarationSymbol}

/-- The comment of a method is found and read. -/
theorem memberComment?_eq (hcontainer : extraction.containerComment = none)
    (h : method.StandsAt extraction.lines symbol.startLine.toNat) :
    ∃ doc, extraction.memberComment? symbol.startLine = some doc ∧
      doc.description = Text.join ['\n'] method.doc.description ∧
      TagBlock.ofSection doc.tagSection = method.doc.blocks := by
  obtain ⟨above, comment, gap, declaration, below, hlines, hline, hcomment, hgap, _⟩ := h
  obtain ⟨body, hbody, honce, htext⟩ := WrittenDoc.commentBody?_lines hcomment
  -- the nearest candidate above the declaration is this comment, whatever stands above it
  have hlocate := (locateComment_eq_iff hbody (fun line hmem => (hgap line hmem).closesComment_eq)
    (isTransparentGap_of_isGapLine hgap) above (declaration :: below)).mpr honce
  refine ⟨DocComment.parse (commentText body), ?_, method.doc.parse_comment htext⟩
  rw [memberComment?, hlines, hline, hlocate]
  simp [hcontainer]

/-- The record of a method is read from the text. -/
theorem method_eq (hcontainer : extraction.containerComment = none)
    (h : method.StandsAt extraction.lines symbol.startLine.toNat)
    (hname : symbol.bareName = method.declaration.name.text) (owner : Identifier) :
    extraction.method ⟨symbol, owner.text⟩ = .ok (method.methodDoc owner symbol) := by
  obtain ⟨doc, hdoc, hdescription, hblocks⟩ := memberComment?_eq hcontainer h
  have hextract : extractSignature extraction.lines symbol.startLine.toNat
      extraction.options.maxSignatureLines = .ok method.declaration.text := by
    obtain ⟨above, comment, gap, declaration, below, hlines, hline, _, _, hdeclaration⟩ := h
    have := method.declaration.extractSignature_eq hdeclaration (above ++ (comment ++ gap)) below
      extraction.options.maxSignatureLines
    rw [hlines, hline]
    simpa [Nat.add_assoc] using this
  -- the reader decides as `constructs` does, since the class has a simple name
  have hconstructs : isConstructor ⟨symbol, owner.text⟩ method.declaration.signature =
      method.constructs owner symbol := by
    rw [isConstructor, Leaf.ownerSimpleName_identifier, hname]
    rfl
  have hsignature : memberSignature ⟨symbol, owner.text⟩ method.declaration.signature =
      method.signature owner symbol := by
    rw [memberSignature, hconstructs, WrittenMethod.signature]
    cases method.constructs owner symbol <;> rfl
  have hmethodDoc : extraction.methodDoc ⟨symbol, owner.text⟩ method.declaration.signature =
      method.methodDoc owner symbol := by
    unfold methodDoc
    dsimp only
    rw [hsignature, hconstructs, hname, hdoc]
    dsimp only [Option.elim_some]
    rw [hdescription, TagTable.ofSection, hblocks]
    have hvisible : stripAnnotations (method.signature owner symbol).text =
        method.declaration.text := method.declaration.stripAnnotations_text
    have htypes : (method.signature owner symbol).parameters.map Parameter.typeName =
        method.declaration.parameters.map fun (type, _) => type.text := by
      rw [WrittenMethod.signature, List.map_map]
      rfl
    rw [hvisible, Signature.display, htypes]
    rfl
  rw [Extraction.method, hextract]
  dsimp only
  rw [method.declaration.parse_text, method.declaration.hasParameterList_signature, hmethodDoc]
  rfl

end Extraction

/-! ## §2 Order -/

/-- Records with different lines are sorted in one way only. -/
theorem sortByLine_eq {α : Type} {line : α → UInt32} {records sorted : List α}
    (hperm : records.Perm sorted) (hsorted : sorted.Pairwise fun a b => line a < line b) :
    sortByLine line records = sorted := by
  -- the sort orders its result, and keeps the records
  have hsort := pairwise_sortByLine line records
  have hall : (sortByLine line records).Perm sorted := (sortByLine_perm line records).trans hperm
  refine List.Perm.eq_of_pairwise ?_ hsort (hsorted.imp UInt32.le_of_lt) hall
  -- two records of one line are one record, as the lines of all others differ
  intro a b ha hb hab hba
  have hline : line a = line b := UInt32.le_antisymm hab hba
  by_contra hne
  have hdiffer : sorted.Pairwise fun a b => line a ≠ line b := hsorted.imp UInt32.ne_of_lt
  have : Std.Symm fun a b => line a ≠ line b := ⟨fun _ _ h => h.symm⟩
  exact hdiffer.forall (hall.subset ha) hb hne hline

/-! ## §3 The model of a class -/

/-- The symbol is a callable with the name of the method, on the line of its declaration. -/
structure IsMember (part : WrittenMethod × Nat) (member : DeclarationSymbol) : Prop where
  callable : member.kind.isCallable = true
  named : member.bareName = part.1.declaration.name.text
  line : member.startLine.toNat = part.2

/-- The symbol outlines the class: its name stands on the first line, and its children are the
members in any order. -/
structure Outlines (symbol : DeclarationSymbol) (members : List DeclarationSymbol)
    (written : WrittenClass) : Prop where
  container : symbol.kind.isContainer = true
  named : symbol.bareName = written.name.text
  first : symbol.startLine = 0
  order : symbol.children.Perm members
  members : List.Forall₂ IsMember (placed 1 written.methods) members

section Members

variable {first : Nat} {methods : List WrittenMethod} {members : List DeclarationSymbol}

private theorem isCallable_of_isMember (h : List.Forall₂ IsMember (placed first methods) members) :
    ∀ member ∈ members, member.kind.isCallable = true := by
  generalize placed first methods = parts at h
  induction h with
  | nil => simp
  | cons hmember _ ih => simpa [hmember.callable] using ih

private theorem length_of_isMember (h : List.Forall₂ IsMember (placed first methods) members) :
    methods.length = members.length := by
  rw [← h.length_eq, ← List.length_map (f := Prod.fst), map_fst_placed]

/-- The members come in the order of their lines. -/
theorem pairwise_of_isMember (h : List.Forall₂ IsMember (placed first methods) members) :
    members.Pairwise fun a b => a.startLine < b.startLine := by
  have hlines : members.map (fun member => member.startLine.toNat) =
      (placed first methods).map Prod.snd := by
    generalize placed first methods = parts at h
    induction h with
    | nil => rfl
    | cons hmember _ ih => rw [List.map_cons, List.map_cons, hmember.line, ih]
  have hpairwise := List.pairwise_map.mpr (pairwise_placed methods first)
  rw [← hlines, List.pairwise_map] at hpairwise
  exact hpairwise.imp fun h => UInt32.lt_iff_toNat_lt.mpr h

/-- What is read for each member is read for all of them. -/
theorem filterMap_of_isMember {α : Type} {read : DeclarationSymbol → Option α}
    {record : WrittenMethod → DeclarationSymbol → α}
    (h : List.Forall₂ IsMember (placed first methods) members)
    (hread : ∀ part ∈ placed first methods, ∀ member, IsMember part member →
      read member = some (record part.1 member)) :
    members.filterMap read = List.zipWith record methods members := by
  induction methods generalizing first members with
  | nil =>
    obtain rfl := List.forall₂_nil_left_iff.mp h
    rfl
  | cons method methods ih =>
    obtain ⟨member, rest, hmember, hrest, rfl⟩ := List.forall₂_cons_left_iff.mp h
    rw [List.filterMap_cons_some (hread _ (List.mem_cons_self ..) member hmember),
      List.zipWith_cons_cons, ih hrest fun part hmem => hread part (List.mem_cons_of_mem _ hmem)]

/-- The records come in the order of their lines. -/
theorem pairwise_methodDoc (h : List.Forall₂ IsMember (placed first methods) members)
    (owner : Identifier) :
    (List.zipWith (fun method member => method.methodDoc owner member) methods members).Pairwise
      fun a b => a.startLine < b.startLine := by
  have hlines : (List.zipWith (fun method member => WrittenMethod.methodDoc method owner member)
      methods members).map MethodDoc.startLine = members.map DeclarationSymbol.startLine := by
    have hsnd : (methods.zip members).map Prod.snd = members :=
      List.map_snd_zip (length_of_isMember h).ge
    rw [← List.map_uncurry_zip_eq_zipWith, List.map_map]
    conv_rhs => rw [← hsnd, List.map_map]
    rfl
  rw [← List.pairwise_map, hlines, List.pairwise_map]
  exact pairwise_of_isMember h

end Members

private theorem leavesInAll_callables {owner : Text} (howner : owner ≠ [])
    {symbols : List DeclarationSymbol} (h : ∀ symbol ∈ symbols, symbol.kind.isCallable = true) :
    leavesInAll owner symbols = symbols.map (⟨·, owner⟩) := by
  induction symbols with
  | nil => rfl
  | cons symbol symbols ih =>
    have hsymbol := h symbol (List.mem_cons_self ..)
    have hkind : symbol.kind.isContainer = false ∧ symbol.kind.isLeaf = true := by
      cases hk : symbol.kind <;> simp_all [DeclarationKind.isCallable, DeclarationKind.isContainer,
        DeclarationKind.isLeaf]
    -- a callable is a leaf itself, whatever its children are
    have hleaf : symbol.leavesIn owner = [⟨symbol, owner⟩] := by
      obtain ⟨name, kind, detail, range, selectionRange, children, containerName⟩ := symbol
      simp only at hkind
      simp [DeclarationSymbol.leavesIn, hkind, ownerOfPath, howner]
    rw [leavesInAll, hleaf, ih fun other hmem => h other (List.mem_cons_of_mem _ hmem)]
    rfl

/-- Callables are no members of another sort. -/
theorem filter_callables {symbols : List DeclarationSymbol}
    (h : ∀ symbol ∈ symbols, symbol.kind.isCallable = true) {sort : DeclarationKind → Bool}
    (hsort : ∀ kind, kind.isCallable = true → sort kind = false) (owner : Text) :
    (symbols.map (Leaf.mk · owner)).filter (fun leaf => sort leaf.symbol.kind) = [] := by
  rw [List.filter_eq_nil_iff]
  intro leaf hleaf
  obtain ⟨symbol, hmem, rfl⟩ := List.mem_map.mp hleaf
  simp [hsort symbol.kind (h symbol hmem)]

private theorem leaves_container {symbol : DeclarationSymbol} (h : symbol.kind.isContainer = true)
    (hname : symbol.bareName ≠ [])
    (hchildren : ∀ child ∈ symbol.children, child.kind.isCallable = true) :
    leaves [symbol] = symbol.children.map (⟨·, symbol.bareName⟩) := by
  have hmembers := leavesInAll_callables hname hchildren
  obtain ⟨name, kind, detail, range, selectionRange, children, containerName⟩ := symbol
  simp only at h hmembers
  rw [leaves, leavesInAll, leavesInAll, List.append_nil, DeclarationSymbol.leavesIn, if_pos h]
  exact hmembers

private theorem primaryContainer?_singleton {symbol : DeclarationSymbol}
    (h : symbol.kind.isContainer = true) (baseName : Text) (preferBaseName : Bool) :
    primaryContainer? [symbol] baseName preferBaseName = some symbol := by
  have hcontainers : [symbol].filter (fun symbol => symbol.kind.isContainer) = [symbol] := by
    simp [h]
  unfold primaryContainer?
  rw [hcontainers]
  dsimp only
  split
  · -- preferred by the name of the file or not, there is only the one
    cases hfound : [symbol].find? fun symbol => symbol.bareName == baseName with
    | none => rfl
    | some found =>
      rw [List.mem_singleton.mp (List.mem_of_find?_eq_some hfound)]
      rfl
  · rfl

/-- Nothing stands above the first line. -/
theorem locateComment_zero (lines : List Text) : locateComment lines 0 = none := by
  simp [locateComment, searchComment]

/-- **The model of a written class has its methods as they were written, in the order of the
text.** -/
theorem buildModel_written {written : WrittenClass} {text : Text} (htext : written.IsText text)
    {symbol : DeclarationSymbol} {members : List DeclarationSymbol}
    (houtline : Outlines symbol members written) (document : DocumentId) (options : ModelOptions) :
    buildModel document text [symbol] options =
      { document
        containerName := written.name.text
        hasComment := false
        description := []
        packageName := findPackage text.lines
        containerLine := some 0
        methods := List.zipWith (fun method member => method.methodDoc written.name member)
          written.methods members
        fields := []
        enumConstants := []
        authorship := none
        author := none
        since := none
        source := .symbols } := by
  obtain ⟨lines, hlines, htextLines⟩ := WrittenClass.exists_lines htext
  obtain ⟨opening, rest, _, hrest, rfl⟩ := List.forall₂_cons_left_iff.mp hlines
  have hmembers := houtline.members
  -- every method stands on the line that the outline gives for it
  have hstands : ∀ part ∈ placed 1 written.methods, part.1.StandsAt text.lines part.2 := by
    intro part hmem
    rw [htextLines]
    exact standsAt_of_mem_placed hrest [Text.dropReturn opening] hmem
  -- the leaves of the outline are its children, all of them callables of the class
  have hcallable : ∀ child ∈ symbol.children, child.kind.isCallable = true := fun child hmem =>
    isCallable_of_isMember hmembers child (houtline.order.subset hmem)
  have hleaves : leaves [symbol] = symbol.children.map (⟨·, written.name.text⟩) := by
    rw [leaves_container houtline.container (houtline.named ▸ written.name.nonempty) hcallable,
      houtline.named]
  have hmodel : containerModel document text.lines [symbol] options =
      { document
        packageName := findPackage text.lines
        containerName := written.name.text
        containerLine := some 0
        source := .symbols } := by
    rw [containerModel, primaryContainer?_singleton houtline.container]
    dsimp only
    rw [houtline.named, houtline.first]
  let extraction : Extraction := ⟨text.lines, options, none⟩
  have hmethods : sortByLine MethodDoc.startLine (extraction.methods (leaves [symbol])) =
      List.zipWith (fun method member => method.methodDoc written.name member)
        written.methods members := by
    have hall : (leaves [symbol]).filter (fun leaf => leaf.symbol.kind.isCallable) =
        symbol.children.map (Leaf.mk · written.name.text) := by
      rw [hleaves, List.filter_eq_self]
      intro leaf hleaf
      obtain ⟨child, hmem, rfl⟩ := List.mem_map.mp hleaf
      exact hcallable child hmem
    rw [Extraction.methods, hall, List.filterMap_map]
    -- the records are those of the members in some order, and sorting puts them in one order
    refine sortByLine_eq ?_ (pairwise_methodDoc hmembers written.name)
    rw [← filterMap_of_isMember hmembers fun part hmem member hmember => ?_]
    · exact houtline.order.filterMap _
    · have hstandsAt := hstands part hmem
      rw [← hmember.line] at hstandsAt
      have hmethod : extraction.method ⟨member, written.name.text⟩ = _ :=
        Extraction.method_eq rfl hstandsAt hmember.named written.name
      exact congrArg Except.toOption hmethod
  have hfields : extraction.fields (leaves [symbol]) = [] := by
    rw [Extraction.fields, hleaves, filter_callables hcallable fun kind => by cases kind <;> decide]
    rfl
  have hconstants : extraction.enumConstants (leaves [symbol]) = [] := by
    rw [Extraction.enumConstants, hleaves,
      filter_callables hcallable fun kind => by cases kind <;> decide]
    rfl
  unfold buildModel
  dsimp only
  rw [hmodel]
  dsimp only [Option.bind_some]
  have hcomment : locateComment text.lines (0 : UInt32).toNat = none := locateComment_zero _
  rw [hcomment, DocumentModel.sortMembers]
  dsimp only [Option.map_none, Option.elim_none, Option.isSome_none]
  rw [hmethods, hfields, hconstants, sortByLine_eq (List.Perm.refl []) .nil,
    sortByLine_eq (List.Perm.refl []) .nil]

/-- A class with a method and a constructor, the first below an annotation with a delimiter in a
literal. -/
def sampleClass : WrittenClass where
  name := ⟨"Box".toList, by decide, by decide⟩
  methods :=
    [{ doc :=
        { description := ["Adds.".toList, [], "Always.".toList]
          tagText := "@param a the first\n  one\n@since 2".toList
          oneLine := by decide
          trimmed := by decide
          unstarred := by decide
          untagged := by decide
          firstNonempty := by decide
          lastNonempty := by decide
          undelimited := by decide
          blocksUndelimited := by decide }
       gap := ["@A(\"*/\")".toList]
       gapLines := by
        intro line hmem
        rw [List.mem_singleton.mp hmem]
        exact ⟨.empty, [(⟨"A".toList, by decide, by decide, by decide,
          some ⟨"\"*/\"".toList, "\"  \"".toList, by decide, by decide⟩⟩, .empty)], by decide⟩
       gapOneLine := by decide
       declaration :=
        { modifiers := [⟨"public".toList, by decide⟩, ⟨"static".toList, by decide⟩]
          returnType := some ⟨"List<T>".toList, by decide, by decide, by decide, by decide⟩
          name := ⟨"add".toList, by decide, by decide⟩
          parameters := [(⟨"Map<K, V>".toList, by decide, by decide, by decide, by decide⟩,
            ⟨"a".toList, by decide, by decide⟩)] } },
     { doc :=
        { description := []
          tagText := []
          oneLine := by decide
          trimmed := by decide
          unstarred := by decide
          untagged := by decide
          firstNonempty := by decide
          lastNonempty := by decide
          undelimited := by decide
          blocksUndelimited := by decide }
       gap := [[]]
       gapLines := by
        intro line hmem
        rw [List.mem_singleton.mp hmem]
        exact ⟨.empty, [], rfl⟩
       gapOneLine := by decide
       declaration :=
        { modifiers := []
          returnType := none
          name := ⟨"Box".toList, by decide, by decide⟩
          parameters := [] } }]

/-- The lines of a document with the class, indented unevenly. -/
def sampleLines : List Text :=
  ["class Box \x7b".toList,
   "  /**".toList,
   "   * Adds.".toList,
   "\t * ".toList,
   "   * Always.".toList,
   "   * @param a the first".toList,
   "     * one".toList,
   "   * @since 2".toList,
   "   */".toList,
   "  @A(\"*/\")".toList,
   "  public static List<T> add(Map<K, V> a) \x7b".toList,
   "  \x7d".toList,
   "  /**".toList,
   "   */".toList,
   " \t".toList,
   "  Box() \x7b".toList,
   "\x7d".toList,
   "\x7d".toList]

/-- The symbols of the method and the constructor. -/
def sampleMembers : List DeclarationSymbol :=
  [.leaf "add(Map)".toList .method (.ofLines 10 11), .leaf "Box()".toList .method (.ofLines 15 16)]

/-- An outline that lists the constructor first. -/
def sampleSymbol : DeclarationSymbol where
  name := "Box".toList
  kind := .classType
  range := .ofLines 0 17
  selectionRange := .ofLines 0 0
  children := sampleMembers.reverse

/-- The sample is read: the continued tag line, the empty line of the description and the type of
the documented parameter come out as they were written. -/
theorem buildModel_sample :
    sampleClass.IsText (Text.join ['\n'] sampleLines) ∧
      Outlines sampleSymbol sampleMembers sampleClass ∧
      (buildModel ⟨"Box.java".toList⟩ (Text.join ['\n'] sampleLines) [sampleSymbol] {}).methods.map
          (fun doc => (doc.id, doc.kind, doc.description, doc.tags.params)) =
        [("add:10".toList, .method, "Adds.\n\nAlways.".toList,
            [⟨"a".toList, "Map<K, V>".toList, "the first\none".toList⟩]),
         ("Box:15".toList, .constructor, [], [])] := by
  have hindented : ∀ pair ∈ sampleClass.lines.zip sampleLines, Indented pair.1 pair.2 := by
    decide +kernel
  have htext : sampleClass.IsText (Text.join ['\n'] sampleLines) :=
    ⟨sampleLines, [], List.forall₂_iff_zip.mpr ⟨by decide +kernel, fun h => hindented _ h⟩,
      Or.inl rfl, (List.append_nil _).symm⟩
  have houtline : Outlines sampleSymbol sampleMembers sampleClass :=
    ⟨rfl, by decide, rfl, List.reverse_perm _,
      .cons ⟨rfl, by decide, by decide +kernel⟩ (.cons ⟨rfl, by decide, by decide +kernel⟩ .nil)⟩
  refine ⟨htext, houtline, ?_⟩
  rw [buildModel_written htext houtline]
  decide +kernel

end DeclDocs
