import Mathlib.Data.List.Forall2
import DeclDocs.Model.Build
import DeclDocs.Proofs.Model.SortedRecords
import DeclDocs.Proofs.Signature.Reread

/-!
# The members of a document

Every leaf of the outline that the text bears out gives one member, whatever becomes of the others.
The members of each kind are those of its usable leaves, sorted by line and otherwise in the order of
the outline, and a leaf that is not usable could as well not be there.

* `DeclarationSymbol.isUsable`: the text bears a declaration out.
* `pruneAll`: an outline without some of its symbols.
* `Ignores.filterMap_leavesInAll`: leaves that give nothing can be pruned.
* `Extraction.Reads`: what methods, fields and enum constants have in common.
* `buildModel_members`: the members of a model, and the model of the pruned outline.
-/

namespace DeclDocs

/-! ## §1 Usable declarations -/

theorem toOption_eq_some_iff {α ε : Type} {result : Except ε α} {value : α} :
    result.toOption = some value ↔ result = .ok value := by
  cases result <;> simp [Except.toOption]

namespace DeclarationSymbol

/-- The declaration's line is in the document and, for a callable, a parenthesis outside literals
opens its parameter list. -/
def isUsable (lines : List Text) (options : ModelOptions) (symbol : DeclarationSymbol) : Bool :=
  symbol.startLine.toNat < lines.length &&
    (!symbol.kind.isCallable ||
      (extractSignature lines symbol.startLine.toNat options.maxSignatureLines).toOption.any
        fun text => .code '(' ∈ (scanLine text).glyphs)

/-- A member that the text does not bear out. -/
def isUnusableLeaf (lines : List Text) (options : ModelOptions) (symbol : DeclarationSymbol) :
    Bool :=
  symbol.kind.isLeaf && !symbol.isUsable lines options

private theorem isContainer_of_isUnusableLeaf {lines : List Text} {options : ModelOptions}
    (symbol : DeclarationSymbol) (h : symbol.isUnusableLeaf lines options = true) :
    symbol.kind.isContainer = false := by
  rw [isUnusableLeaf, Bool.and_eq_true] at h
  have hleaf := h.1
  revert hleaf
  cases symbol.kind <;> decide

end DeclarationSymbol

namespace Extraction

variable (extraction : Extraction) (leaf : Leaf)

/-- The text bears the leaf out. -/
def isUsable : Bool :=
  leaf.symbol.isUsable extraction.lines extraction.options

private theorem isUsable_of_not_callable (h : leaf.symbol.kind.isCallable = false) :
    extraction.isUsable leaf =
      decide (leaf.symbol.startLine.toNat < extraction.lines.length) := by
  simp [isUsable, DeclarationSymbol.isUsable, h]

/-- A callable is documented with the signature that the text gives it, provided that has a
parameter list. -/
theorem method_eq_ok_iff {extraction : Extraction} {leaf : Leaf} {doc : MethodDoc} :
    extraction.method leaf = .ok doc ↔
      ∃ text, extractSignature extraction.lines leaf.symbol.startLine.toNat
          extraction.options.maxSignatureLines = .ok text ∧
        (Signature.parse text).hasParameterList = true ∧
        extraction.methodDoc leaf (Signature.parse text) = doc := by
  rw [method]
  cases extractSignature extraction.lines leaf.symbol.startLine.toNat
      extraction.options.maxSignatureLines with
  | error error => simp
  | ok text =>
    dsimp only
    split
    case isTrue hlist => simp [hlist]
    case isFalse hlist => simp [hlist]

/-- A callable gives a method exactly if it is usable. -/
theorem isSome_method (h : leaf.symbol.kind.isCallable = true) :
    (extraction.method leaf).toOption.isSome = extraction.isUsable leaf := by
  rw [method, isUsable, DeclarationSymbol.isUsable]
  cases htext : extractSignature extraction.lines leaf.symbol.startLine.toNat
      extraction.options.maxSignatureLines with
  | error error => simp [h, Except.toOption]
  | ok text =>
    -- there is no text at a line outside the document
    have hline : leaf.symbol.startLine.toNat < extraction.lines.length := by
      by_contra hout
      rw [extractSignature, if_pos (by omega)] at htext
      cases htext
    have hlist := hasParameterList_iff_mem htext
    dsimp only
    split
    case isTrue hhas => simp [h, hline, Except.toOption, hlist.mp hhas]
    case isFalse hhas => simp [h, hline, Except.toOption, mt hlist.mpr hhas]

theorem isSome_line (index : UInt32) :
    (extraction.line index).toOption.isSome = decide (index.toNat < extraction.lines.length) := by
  rw [line]
  split
  case h_1 line hline =>
    obtain ⟨hlt, _⟩ := List.getElem?_eq_some_iff.mp hline
    simp [Except.toOption, hlt]
  case h_2 hnone => simpa [Except.toOption] using hnone

private theorem isSome_field (h : leaf.symbol.kind.isCallable = false) :
    (extraction.field leaf).toOption.isSome = extraction.isUsable leaf := by
  rw [isUsable_of_not_callable extraction leaf h, ← isSome_line, field]
  cases extraction.line leaf.symbol.startLine <;> rfl

private theorem isSome_enumConstant (h : leaf.symbol.kind.isCallable = false) :
    (extraction.enumConstant leaf).toOption.isSome = extraction.isUsable leaf := by
  rw [isUsable_of_not_callable extraction leaf h, ← isSome_line, enumConstant]
  cases extraction.line leaf.symbol.startLine <;> rfl

end Extraction

/-! ## §2 Pruned outlines -/

mutual

/-- The symbol without the unwanted ones below it. -/
def DeclarationSymbol.prune (unwanted : DeclarationSymbol → Bool) :
    DeclarationSymbol → DeclarationSymbol
  | ⟨name, kind, detail, range, selectionRange, children, containerName⟩ =>
    ⟨name, kind, detail, range, selectionRange, pruneAll unwanted children, containerName⟩

/-- The symbols without the unwanted ones among and below them. -/
def pruneAll (unwanted : DeclarationSymbol → Bool) : List DeclarationSymbol → List DeclarationSymbol
  | [] => []
  | symbol :: symbols =>
    if unwanted symbol then pruneAll unwanted symbols
    else symbol.prune unwanted :: pruneAll unwanted symbols

end

section Pruning

variable {unwanted : DeclarationSymbol → Bool}

namespace DeclarationSymbol

variable (unwanted) (symbol : DeclarationSymbol)

private theorem kind_prune : (symbol.prune unwanted).kind = symbol.kind := by
  cases symbol
  rfl

private theorem bareName_prune : (symbol.prune unwanted).bareName = symbol.bareName := by
  cases symbol
  rfl

private theorem startLine_prune : (symbol.prune unwanted).startLine = symbol.startLine := by
  cases symbol
  rfl

end DeclarationSymbol

/-- A symbol that is neither a container nor gives anything has no part in the result. -/
theorem filterMap_leavesIn_eq_nil {β : Type} {f : Leaf → Option β} {symbol : DeclarationSymbol}
    (hkind : symbol.kind.isContainer = false) (h : ∀ owner, f ⟨symbol, owner⟩ = none)
    (owner : Text) : (symbol.leavesIn owner).filterMap f = [] := by
  obtain ⟨name, kind, detail, range, selectionRange, children, containerName⟩ := symbol
  rw [DeclarationSymbol.leavesIn, if_neg (by simpa using hkind)]
  split
  · simp [h]
  · rfl

/-- Leaves are read without regard to what is below them, and unwanted symbols, which are no
containers, give nothing. -/
structure Ignores {β : Type} (f : Leaf → Option β) (unwanted : DeclarationSymbol → Bool) : Prop where
  below : ∀ symbol owner, f ⟨symbol.prune unwanted, owner⟩ = f ⟨symbol, owner⟩
  container : ∀ symbol, unwanted symbol = true → symbol.kind.isContainer = false
  nothing : ∀ symbol, unwanted symbol = true → ∀ owner, f ⟨symbol, owner⟩ = none

mutual

theorem Ignores.filterMap_leavesIn {β : Type} {f : Leaf → Option β} (h : Ignores f unwanted)
    (owner : Text) :
    ∀ symbol : DeclarationSymbol, ((symbol.prune unwanted).leavesIn owner).filterMap f =
      (symbol.leavesIn owner).filterMap f
  | ⟨name, kind, detail, range, selectionRange, children, containerName⟩ => by
    have hleaf := h.below
      ⟨name, kind, detail, range, selectionRange, children, containerName⟩ (ownerOfPath owner)
    rw [DeclarationSymbol.prune] at hleaf ⊢
    rw [DeclarationSymbol.leavesIn, DeclarationSymbol.leavesIn]
    split
    · -- a container keeps its name, so its children have the owner they had
      exact h.filterMap_leavesInAll _ children
    · split
      · simp only [List.filterMap_cons, hleaf]
      · rfl

/-- **Symbols that give nothing can be pruned**, however deep they are. -/
theorem Ignores.filterMap_leavesInAll {β : Type} {f : Leaf → Option β} (h : Ignores f unwanted)
    (owner : Text) :
    ∀ symbols : List DeclarationSymbol,
      (leavesInAll owner (pruneAll unwanted symbols)).filterMap f =
        (leavesInAll owner symbols).filterMap f
  | [] => rfl
  | symbol :: symbols => by
    have hrest := h.filterMap_leavesInAll owner symbols
    rw [pruneAll, leavesInAll, List.filterMap_append]
    split
    case isTrue hsymbol =>
      rw [filterMap_leavesIn_eq_nil (h.container symbol hsymbol) (h.nothing symbol hsymbol), hrest]
      rfl
    case isFalse =>
      rw [leavesInAll, List.filterMap_append, h.filterMap_leavesIn owner symbol, hrest]

end

/-! ## §3 The main type of a pruned outline -/

variable (hcontainer : ∀ symbol, unwanted symbol = true → symbol.kind.isContainer = false)
include hcontainer

private theorem filter_isContainer_pruneAll (symbols : List DeclarationSymbol) :
    ((pruneAll unwanted symbols).filter fun symbol => symbol.kind.isContainer) =
      (symbols.filter fun symbol => symbol.kind.isContainer).map
        (DeclarationSymbol.prune unwanted) := by
  induction symbols with
  | nil => rfl
  | cons symbol symbols ih =>
    rw [pruneAll]
    split
    case isTrue hsymbol =>
      rw [ih, List.filter_cons_of_neg (by simp [hcontainer symbol hsymbol])]
    case isFalse =>
      simp only [List.filter_cons, DeclarationSymbol.kind_prune, ih]
      split <;> rfl

private theorem primaryContainer?_pruneAll (symbols : List DeclarationSymbol) (baseName : Text)
    (preferBaseName : Bool) :
    primaryContainer? (pruneAll unwanted symbols) baseName preferBaseName =
      (primaryContainer? symbols baseName preferBaseName).map
        (DeclarationSymbol.prune unwanted) := by
  have hname : ((fun symbol : DeclarationSymbol => symbol.bareName == baseName) ∘
      DeclarationSymbol.prune unwanted) = fun symbol => symbol.bareName == baseName := by
    funext symbol
    simp only [Function.comp_apply, DeclarationSymbol.bareName_prune]
  rw [primaryContainer?, primaryContainer?, filter_isContainer_pruneAll hcontainer]
  rw [List.find?_map, hname, List.head?_map]
  cases preferBaseName with
  | false => rfl
  | true => exact Option.map_or.symm

private theorem containerModel_pruneAll (document : DocumentId) (lines : List Text)
    (symbols : List DeclarationSymbol) (options : ModelOptions) :
    containerModel document lines (pruneAll unwanted symbols) options =
      containerModel document lines symbols options := by
  rw [containerModel, containerModel, primaryContainer?_pruneAll hcontainer]
  cases primaryContainer? symbols document.baseName options.preferFileNameContainer with
  | none => rfl
  | some container =>
    simp only [Option.map_some, DeclarationSymbol.bareName_prune,
      DeclarationSymbol.startLine_prune]

end Pruning

/-! ## §4 Members -/

/-- One result for each of the inputs that have one. -/
theorem forall₂_filterMap_toOption {α β ε : Type} {f : α → Except ε β} {p : α → Bool}
    {inputs : List α} (h : ∀ a ∈ inputs, (f a).toOption.isSome = p a) :
    List.Forall₂ (fun a b => f a = .ok b) (inputs.filter p)
      (inputs.filterMap fun a => (f a).toOption) := by
  induction inputs with
  | nil => exact .nil
  | cons a inputs ih =>
    have hrest := ih fun b hb => h b (List.mem_cons_of_mem a hb)
    have ha := h a List.mem_cons_self
    cases hf : f a with
    | error error =>
      have hp : p a = false := by simpa [hf, Except.toOption] using ha.symm
      simpa [List.filter_cons, List.filterMap_cons, hp, hf, Except.toOption] using hrest
    | ok b =>
      have hp : p a = true := by simpa [hf, Except.toOption] using ha.symm
      simpa [List.filter_cons, List.filterMap_cons, hp, hf, Except.toOption] using hrest

namespace Extraction

/-- The usable leaves of some kinds. -/
def usable (extraction : Extraction) (kind : DeclarationKind → Bool) (leaves : List Leaf) :
    List Leaf :=
  (leaves.filter fun leaf => kind leaf.symbol.kind).filter extraction.isUsable

/-- Leaves of some kinds are read exactly if they are usable, and without regard to what is below
them. -/
structure Reads {β : Type} (extraction : Extraction) (kind : DeclarationKind → Bool)
    (read : Leaf → Except ExtractionError β) : Prop where
  isSome : ∀ leaf, kind leaf.symbol.kind = true →
    (read leaf).toOption.isSome = extraction.isUsable leaf
  below : ∀ unwanted symbol owner, read ⟨symbol.prune unwanted, owner⟩ = read ⟨symbol, owner⟩

variable (extraction : Extraction)

private theorem reads_method : extraction.Reads DeclarationKind.isCallable extraction.method where
  isSome := extraction.isSome_method
  below unwanted symbol owner := by
    cases symbol
    rfl

private theorem reads_field : extraction.Reads DeclarationKind.isDataMember extraction.field where
  isSome leaf h := by
    apply extraction.isSome_field leaf
    revert h
    cases leaf.symbol.kind <;> decide
  below unwanted symbol owner := by
    cases symbol
    rfl

private theorem reads_enumConstant :
    extraction.Reads DeclarationKind.isEnumConstant extraction.enumConstant where
  isSome leaf h := by
    apply extraction.isSome_enumConstant leaf
    revert h
    cases leaf.symbol.kind <;> decide
  below unwanted symbol owner := by
    cases symbol
    rfl

namespace Reads

variable {extraction} {β : Type} {kind : DeclarationKind → Bool}
  {read : Leaf → Except ExtractionError β} (h : extraction.Reads kind read)
include h

/-- One member for each usable leaf. -/
theorem forall₂_usable (leaves : List Leaf) :
    List.Forall₂ (fun leaf doc => read leaf = .ok doc) (extraction.usable kind leaves)
      ((leaves.filter fun leaf => kind leaf.symbol.kind).filterMap fun leaf =>
        (read leaf).toOption) :=
  forall₂_filterMap_toOption fun leaf hleaf =>
    h.isSome leaf (by simpa using (List.mem_filter.mp hleaf).2)

/-- The members of the outline without unusable leaves. -/
theorem filterMap_leaves_pruneAll (symbols : List DeclarationSymbol) :
    (((leaves (pruneAll (DeclarationSymbol.isUnusableLeaf extraction.lines extraction.options)
        symbols)).filter fun leaf => kind leaf.symbol.kind).filterMap fun leaf =>
          (read leaf).toOption) =
      ((leaves symbols).filter fun leaf => kind leaf.symbol.kind).filterMap fun leaf =>
        (read leaf).toOption := by
  rw [List.filterMap_filter, List.filterMap_filter]
  refine Ignores.filterMap_leavesInAll ⟨fun symbol owner => ?_, ?_, ?_⟩ [] symbols
  · rw [h.below, DeclarationSymbol.kind_prune]
  · exact DeclarationSymbol.isContainer_of_isUnusableLeaf
  · intro symbol hsymbol owner
    rw [DeclarationSymbol.isUnusableLeaf, Bool.and_eq_true, Bool.not_eq_true'] at hsymbol
    split
    case isTrue hkind =>
      have hnone := h.isSome ⟨symbol, owner⟩ hkind
      rw [Extraction.isUsable, hsymbol.2] at hnone
      simpa using hnone
    case isFalse => rfl

end Reads

end Extraction

/-! ## §5 The whole document -/

/-- What the members of a document are read from. -/
def documentExtraction (document : DocumentId) (text : Text) (symbols : List DeclarationSymbol)
    (options : ModelOptions) : Extraction where
  lines := text.lines
  options := options
  containerComment :=
    ((containerModel document text.lines symbols options).containerLine.bind fun line =>
      locateComment text.lines line.toNat).map CommentBlock.text

/-- Leaves that are not usable leave no trace in the model. -/
theorem buildModel_pruneAll (document : DocumentId) (text : Text)
    (symbols : List DeclarationSymbol) (options : ModelOptions) :
    buildModel document text
        (pruneAll (DeclarationSymbol.isUnusableLeaf text.lines options) symbols) options =
      buildModel document text symbols options := by
  have hmodel := containerModel_pruneAll
    (@DeclarationSymbol.isContainer_of_isUnusableLeaf text.lines options) document text.lines symbols
    options
  have hmethods := fun comment =>
    (Extraction.reads_method ⟨text.lines, options, comment⟩).filterMap_leaves_pruneAll symbols
  have hfields := fun comment =>
    (Extraction.reads_field ⟨text.lines, options, comment⟩).filterMap_leaves_pruneAll symbols
  have hconstants := fun comment =>
    (Extraction.reads_enumConstant ⟨text.lines, options, comment⟩).filterMap_leaves_pruneAll symbols
  simp only [buildModel, hmodel, Extraction.methods, hmethods, Extraction.fields, hfields,
    Extraction.enumConstants, hconstants]

/-- **The members of a document are those of its usable leaves**, one for each, stably sorted by
line, and the leaves that are not usable could as well not be there. -/
theorem buildModel_members (document : DocumentId) (text : Text) (symbols : List DeclarationSymbol)
    (options : ModelOptions) :
    let model := buildModel document text symbols options
    let extraction := documentExtraction document text symbols options
    (∃ docs, List.Forall₂ (fun leaf doc => extraction.method leaf = .ok doc)
        (extraction.usable DeclarationKind.isCallable (leaves symbols)) docs ∧
      IsStableSort MethodDoc.startLine docs model.methods) ∧
    (∃ docs, List.Forall₂ (fun leaf doc => extraction.field leaf = .ok doc)
        (extraction.usable DeclarationKind.isDataMember (leaves symbols)) docs ∧
      IsStableSort FieldDoc.startLine docs model.fields) ∧
    (∃ docs, List.Forall₂ (fun leaf doc => extraction.enumConstant leaf = .ok doc)
        (extraction.usable DeclarationKind.isEnumConstant (leaves symbols)) docs ∧
      IsStableSort EnumConstantDoc.startLine docs model.enumConstants) ∧
    buildModel document text
        (pruneAll (DeclarationSymbol.isUnusableLeaf text.lines options) symbols) options =
      model := by
  intro model extraction
  refine ⟨⟨_, extraction.reads_method.forall₂_usable _, isStableSort_sortByLine _ _⟩,
    ⟨_, extraction.reads_field.forall₂_usable _, isStableSort_sortByLine _ _⟩,
    ⟨_, extraction.reads_enumConstant.forall₂_usable _, isStableSort_sortByLine _ _⟩,
    buildModel_pruneAll document text symbols options⟩

end DeclDocs
