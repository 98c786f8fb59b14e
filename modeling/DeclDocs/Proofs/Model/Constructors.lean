import DeclDocs.Proofs.Model.Access
import DeclDocs.Proofs.Outline.Preorder

/-!
# Constructors

A callable that the outline does not call a constructor is one nevertheless if it has no return type
and the name of the innermost container around it.  The names of the containers reach the decision
as one dotted text, and a callable outside all containers has a placeholder there.  Where containers
have names without dots, the last part of the text is the innermost name; but a callable outside all
containers that is called like the placeholder is taken for a constructor as well.

* `HasPlainContainers`: the outlines whose dotted texts can be read back.
* `Node.IsNamedLikeContainer`, `Node.IsNamedLikePlaceholder`: the two ways to have the owner's name.
* `Extraction.kind_eq_constructor_iff`: the decision for one callable.
* `buildModel_constructors`: the constructors of a model.
-/

namespace DeclDocs

/-! ## §1 Names of owners -/

/-- Every container of the outline has a name, and none of the names has a dot. -/
def HasPlainContainers (symbols : List DeclarationSymbol) : Prop :=
  ∀ node ∈ preorder symbols, node.symbol.kind.isContainer = true →
    node.symbol.bareName ≠ [] ∧ '.' ∉ node.symbol.bareName

private theorem HasPlainContainers.namesContainers {symbols : List DeclarationSymbol}
    (h : HasPlainContainers symbols) : NamesContainers symbols :=
  fun node hmem hkind => (h node hmem hkind).1

mutual

/-- What is above a node of an outline is in the outline, or above all of it. -/
theorem DeclarationSymbol.exists_node_of_mem_ancestors {above : List DeclarationSymbol}
    {node : Node} {symbol : DeclarationSymbol} :
    ∀ {root : DeclarationSymbol}, node ∈ root.nodes above → symbol ∈ node.ancestors →
      symbol ∈ above ∨ ∃ other ∈ root.nodes above, other.symbol = symbol
  | ⟨name, kind, detail, range, selectionRange, children, containerName⟩, hnode, hsymbol => by
    rcases List.mem_cons.mp hnode with rfl | hbelow
    · exact Or.inl hsymbol
    · rcases exists_node_of_mem_ancestors hbelow hsymbol with hmem | ⟨other, hother, heq⟩
      · rcases List.mem_append.mp hmem with habove | hroot
        · exact Or.inl habove
        · -- the symbol is the one at the root
          exact Or.inr ⟨_, List.mem_cons_self, (List.mem_singleton.mp hroot).symm⟩
      · exact Or.inr ⟨other, List.mem_cons_of_mem _ hother, heq⟩

theorem exists_node_of_mem_ancestors {above : List DeclarationSymbol} {node : Node}
    {symbol : DeclarationSymbol} :
    ∀ {symbols : List DeclarationSymbol}, node ∈ nodesAll above symbols → symbol ∈ node.ancestors →
      symbol ∈ above ∨ ∃ other ∈ nodesAll above symbols, other.symbol = symbol
  | [], hnode, _ => by simp [nodesAll] at hnode
  | root :: symbols, hnode, hsymbol => by
    rcases List.mem_append.mp hnode with hfirst | hrest
    · rcases DeclarationSymbol.exists_node_of_mem_ancestors hfirst hsymbol with
        habove | ⟨other, hother, heq⟩
      · exact Or.inl habove
      · exact Or.inr ⟨other, List.mem_append_left _ hother, heq⟩
    · rcases exists_node_of_mem_ancestors hrest hsymbol with habove | ⟨other, hother, heq⟩
      · exact Or.inl habove
      · exact Or.inr ⟨other, List.mem_append_right _ hother, heq⟩

end

namespace Node

variable (node : Node)

/-- A container is around the node, and the innermost one has its name. -/
def IsNamedLikeContainer : Prop :=
  ∃ innermost ∈ node.ancestors.getLast?, node.symbol.bareName = innermost.bareName

/-- No container is around the node, and it is called like the owner of such nodes. -/
def IsNamedLikePlaceholder : Prop :=
  node.ancestors = [] ∧ node.symbol.bareName = unknownOwner

variable {node}

/-- The containers around a member of such an outline have names without dots. -/
theorem not_mem_bareName_of_isMember {symbols : List DeclarationSymbol}
    (h : HasPlainContainers symbols) (hnode : node ∈ preorder symbols)
    (hmember : node.isMember = true) {container : DeclarationSymbol}
    (hcontainer : container ∈ node.ancestors) : '.' ∉ container.bareName := by
  have hkind : container.kind.isContainer = true :=
    List.all_eq_true.mp (Bool.and_eq_true_iff.mp hmember).2 container hcontainer
  rcases exists_node_of_mem_ancestors hnode hcontainer with habove | ⟨other, hother, rfl⟩
  · simp at habove
  · exact (h other hother hkind).2

/-- **The simple name of the owner** is that of the innermost container, or the placeholder. -/
theorem bareName_eq_ownerSimpleName_iff
    (hdot : ∀ container ∈ node.ancestors, '.' ∉ container.bareName) :
    node.symbol.bareName = node.leaf.ownerSimpleName ↔
      node.IsNamedLikeContainer ∨ node.IsNamedLikePlaceholder := by
  cases hlast : node.ancestors.getLast? with
  | none =>
    have hnil : node.ancestors = [] := List.getLast?_eq_none_iff.mp hlast
    have howner : node.leaf.ownerSimpleName = unknownOwner := by
      have hleaf : node.leaf = ⟨node.symbol, unknownOwner⟩ := by simp [leaf, owner, hnil]
      rw [hleaf]
      rfl
    simp [IsNamedLikeContainer, IsNamedLikePlaceholder, hnil, howner]
  | some innermost =>
    have hmem : innermost ∈ node.ancestors := List.mem_of_getLast? hlast
    have hne : node.ancestors ≠ [] := List.ne_nil_of_mem hmem
    rw [ownerSimpleName_leaf hlast (hdot innermost hmem)]
    simp [IsNamedLikeContainer, IsNamedLikePlaceholder, hlast, hne]

end Node

/-! ## §2 One callable -/

namespace Extraction

variable (extraction : Extraction)

/-- The text of the document gives the declaration this signature. -/
def HasSignature (symbol : DeclarationSymbol) (signature : Signature) : Prop :=
  ∃ text, extractSignature extraction.lines symbol.startLine.toNat
      extraction.options.maxSignatureLines = .ok text ∧ signature = Signature.parse text

variable {extraction}

private theorem kind_methodDoc_iff (leaf : Leaf) (signature : Signature) :
    (extraction.methodDoc leaf signature).kind = .constructor ↔
      leaf.symbol.kind = .constructor ∨
        signature.returnType = none ∧ leaf.symbol.bareName = leaf.ownerSimpleName := by
  have hkind : (extraction.methodDoc leaf signature).kind = .constructor ↔
      isConstructor leaf signature = true := by
    show (if isConstructor leaf signature then MethodKind.constructor else .method) = _ ↔ _
    split <;> simp_all
  rw [hkind, isConstructor]
  simp

/-- **When a callable is documented as a constructor.** -/
theorem kind_eq_constructor_iff {node : Node}
    (hdot : ∀ container ∈ node.ancestors, '.' ∉ container.bareName) {doc : MethodDoc}
    (h : extraction.method node.leaf = .ok doc) :
    ∃ signature, extraction.HasSignature node.symbol signature ∧
      (doc.kind = .constructor ↔ node.symbol.kind = .constructor ∨
        signature.returnType = none ∧
          (node.IsNamedLikeContainer ∨ node.IsNamedLikePlaceholder)) := by
  obtain ⟨text, htext, -, rfl⟩ := method_eq_ok_iff.mp h
  refine ⟨Signature.parse text, ⟨text, htext, rfl⟩, ?_⟩
  rw [kind_methodDoc_iff, ← Node.bareName_eq_ownerSimpleName_iff hdot]
  rfl

end Extraction

/-! ## §3 The model -/

/-- Sorted records come from leaves that are read. -/
theorem exists_leaf_of_mem_sortByLine {α : Type} {line : α → UInt32}
    {read : Leaf → Except ExtractionError α} {isOfKind : Leaf → Bool} {leaves : List Leaf} {doc : α}
    (h : doc ∈ sortByLine line
      ((leaves.filter isOfKind).filterMap fun leaf => (read leaf).toOption)) :
    ∃ leaf ∈ leaves, isOfKind leaf = true ∧ read leaf = .ok doc := by
  rw [(sortByLine_perm line _).mem_iff, List.mem_filterMap] at h
  obtain ⟨leaf, hleaf, hread⟩ := h
  obtain ⟨hmem, hkind⟩ := List.mem_filter.mp hleaf
  exact ⟨leaf, hmem, hkind, toOption_eq_some_iff.mp hread⟩

/-- **The constructors of a model.**  Where containers have names without dots, a callable that is
documented is a constructor exactly if the outline says so, or if its signature has no return type
and it has the name of the innermost container around it; or, outside all containers, the name that
stands for their absence. -/
theorem buildModel_constructors (document : DocumentId) (text : Text)
    (symbols : List DeclarationSymbol) (options : ModelOptions)
    (hplain : HasPlainContainers symbols) :
    let model := buildModel document text symbols options
    let extraction := documentExtraction document text symbols options
    (∀ node ∈ preorder symbols, node.isMember = true → node.symbol.kind.isCallable = true →
      ∀ doc, extraction.method node.leaf = .ok doc →
        doc ∈ model.methods ∧ ∃ signature, extraction.HasSignature node.symbol signature ∧
          (doc.kind = .constructor ↔ node.symbol.kind = .constructor ∨
            signature.returnType = none ∧
              (node.IsNamedLikeContainer ∨ node.IsNamedLikePlaceholder))) ∧
    ∀ doc ∈ model.methods, ∃ node ∈ preorder symbols, node.isMember = true ∧
      node.symbol.kind.isCallable = true ∧ extraction.method node.leaf = .ok doc := by
  intro model extraction
  have hleaves : leaves symbols = ((preorder symbols).filter Node.isMember).map Node.leaf := by
    have houtermost : AreNamedContainers [] := by simp [AreNamedContainers]
    exact leavesInAll_eq_filter houtermost hplain.namesContainers
  constructor
  · intro node hnode hmember hkind doc hdoc
    have hleaf : node.leaf ∈ leaves symbols := by
      rw [hleaves]
      exact List.mem_map_of_mem (List.mem_filter.mpr ⟨hnode, hmember⟩)
    refine ⟨mem_sortByLine_of_read hleaf hkind hdoc, ?_⟩
    apply Extraction.kind_eq_constructor_iff _ hdoc
    intro container hcontainer
    exact Node.not_mem_bareName_of_isMember hplain hnode hmember hcontainer
  · intro doc hdoc
    obtain ⟨leaf, hleaf, hkind, hread⟩ := exists_leaf_of_mem_sortByLine hdoc
    rw [hleaves] at hleaf
    obtain ⟨node, hnode, rfl⟩ := List.mem_map.mp hleaf
    obtain ⟨hmem, hmember⟩ := List.mem_filter.mp hnode
    exact ⟨node, hmem, hmember, hkind, hread⟩

/-- A symbol whose declaration begins on the given line. -/
def symbolAt (line : UInt32) (name : String) (kind : DeclarationKind)
    (children : List DeclarationSymbol) : DeclarationSymbol where
  name := name.toList
  kind := kind
  range := .ofLines line line
  selectionRange := .ofLines line line
  children := children

/-- A class in a class, with a callable that is named like it. -/
def nestedPoint : DeclarationSymbol :=
  symbolAt 1 "Point : Object" .classType [symbolAt 2 "Point(int)" .method []]

def shapeOutline : List DeclarationSymbol :=
  [symbolAt 0 "Shape" .interfaceType [nestedPoint]]

def shapeText : Text :=
  "interface Shape \x7b\n class Point \x7b\n  public Point(\nint x) \x7b\x7d".toList

/-- The callable has the name of the inner class, so it is a constructor. -/
theorem buildModel_constructors_shape :
    HasPlainContainers shapeOutline ∧
      ∃ doc ∈ (buildModel ⟨"Shape.java".toList⟩ shapeText shapeOutline {}).methods,
        doc.kind = .constructor := by
  have hplain : HasPlainContainers shapeOutline := by
    unfold HasPlainContainers
    decide +kernel
  refine ⟨hplain, ?_⟩
  let node : Node := ⟨[symbolAt 0 "Shape" .interfaceType [nestedPoint], nestedPoint],
    symbolAt 2 "Point(int)" .method []⟩
  have hnode : node ∈ preorder shapeOutline :=
    List.mem_cons_of_mem _ (List.mem_cons_of_mem _ List.mem_cons_self)
  have hextract : extractSignature shapeText.lines 2 defaultSignatureLines =
      .ok "public Point( int x)".toList := by decide +kernel
  have hmethod : (documentExtraction ⟨"Shape.java".toList⟩ shapeText shapeOutline {}).method
      node.leaf = .ok _ :=
    Extraction.method_eq_ok_iff.mpr ⟨_, hextract, by decide +kernel, rfl⟩
  obtain ⟨hmem, signature, ⟨text, htext, rfl⟩, hkind⟩ :=
    (buildModel_constructors ⟨"Shape.java".toList⟩ shapeText shapeOutline {} hplain).1
      node hnode rfl rfl _ hmethod
  refine ⟨_, hmem, hkind.mpr (Or.inr ⟨?_, Or.inl ⟨nestedPoint, rfl, rfl⟩⟩)⟩
  obtain rfl := Except.ok.inj (hextract.symm.trans htext)
  decide +kernel

/-- **A callable outside all containers can be taken for a constructor**: it has the name that
stands for the absence of an owner. -/
theorem not_forall_constructor_isNamedLikeContainer :
    ¬ ∀ (document : DocumentId) (text : Text) (symbols : List DeclarationSymbol)
        (options : ModelOptions), HasPlainContainers symbols →
        ∀ node ∈ preorder symbols, node.isMember = true → node.symbol.kind.isCallable = true →
        ∀ doc, (documentExtraction document text symbols options).method node.leaf = .ok doc →
          ∃ signature,
            (documentExtraction document text symbols options).HasSignature node.symbol signature ∧
            (doc.kind = .constructor ↔ node.symbol.kind = .constructor ∨
              signature.returnType = none ∧ node.IsNamedLikeContainer) := by
  intro hall
  let text : Text := "unknown() \x7b".toList
  let node : Node := ⟨[], symbolAt 0 "unknown" .function []⟩
  have hplain : HasPlainContainers [node.symbol] := by
    unfold HasPlainContainers
    decide +kernel
  have hextract : extractSignature text.lines 0 defaultSignatureLines = .ok "unknown()".toList := by
    decide +kernel
  have hmethod : (documentExtraction ⟨"A.java".toList⟩ text [node.symbol] {}).method node.leaf =
      .ok _ :=
    Extraction.method_eq_ok_iff.mpr ⟨_, hextract, by decide +kernel, rfl⟩
  obtain ⟨signature, -, hkind⟩ := hall ⟨"A.java".toList⟩ text [node.symbol] {} hplain node
    List.mem_cons_self rfl rfl _ hmethod
  rw [Extraction.kind_methodDoc_iff] at hkind
  -- it has no return type and the name of the placeholder
  rcases hkind.mp (Or.inr ⟨by decide +kernel, rfl⟩) with hfunction | ⟨-, innermost, hinnermost, -⟩
  · exact absurd hfunction (by decide)
  · exact absurd hinnermost (by simp [node])

end DeclDocs
