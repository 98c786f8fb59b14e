import DeclDocs.Outline.Leaf
import DeclDocs.Proofs.Text.Marks

/-!
# Leaves of an outline in preorder

The nodes of an outline are met in preorder: a symbol, then what is below it, then its next sibling.
Every node is met, members of members and declarations of other kinds included.  The leaves of the
outline are those nodes that are members and have containers only above them.

* `Node`, `preorder`: the nodes of an outline with what is above them.
* `Node.isMember`, `Node.owner`: the nodes that are listed, and the owner that they are listed with.
* `leavesInAll_eq_filter`: what the traversal lists below given ancestors.
* `leaves_preorder`: the leaves of an outline.
-/

namespace DeclDocs

/-! ## §1 Nodes -/

/-- A symbol of an outline with the symbols above it, outermost first. -/
structure Node where
  ancestors : List DeclarationSymbol
  symbol : DeclarationSymbol

mutual

/-- The nodes at and below a symbol with the given ancestors. -/
def DeclarationSymbol.nodes (ancestors : List DeclarationSymbol) : DeclarationSymbol → List Node
  | ⟨name, kind, detail, range, selectionRange, children, containerName⟩ =>
    let symbol := ⟨name, kind, detail, range, selectionRange, children, containerName⟩
    ⟨ancestors, symbol⟩ :: nodesAll (ancestors ++ [symbol]) children

/-- The nodes at and below several symbols with the given ancestors. -/
def nodesAll (ancestors : List DeclarationSymbol) : List DeclarationSymbol → List Node
  | [] => []
  | symbol :: symbols => symbol.nodes ancestors ++ nodesAll ancestors symbols

end

/-- All nodes of an outline. -/
def preorder (symbols : List DeclarationSymbol) : List Node :=
  nodesAll [] symbols

private theorem DeclarationSymbol.nodes_eq (ancestors : List DeclarationSymbol)
    (symbol : DeclarationSymbol) :
    symbol.nodes ancestors =
      ⟨ancestors, symbol⟩ :: nodesAll (ancestors ++ [symbol]) symbol.children := by
  cases symbol
  rfl

private theorem DeclarationSymbol.leavesIn_eq (owner : Text) (symbol : DeclarationSymbol) :
    symbol.leavesIn owner =
      if symbol.kind.isContainer then leavesInAll (ownerPath owner symbol.bareName) symbol.children
      else if symbol.kind.isLeaf then [⟨symbol, ownerOfPath owner⟩]
      else [] := by
  cases symbol
  rfl

namespace Node

variable (node : Node)

/-- A member with containers only above it. -/
def isMember : Bool :=
  node.symbol.kind.isLeaf && node.ancestors.all fun symbol => symbol.kind.isContainer

/-- The bare names of the ancestors joined by dots, if there are any. -/
def owner : Text :=
  if node.ancestors.isEmpty then unknownOwner
  else Text.join "." (node.ancestors.map DeclarationSymbol.bareName)

/-- The record of the node. -/
def leaf : Leaf :=
  ⟨node.symbol, node.owner⟩

end Node

/-- Every container of the outline has a name. -/
def NamesContainers (symbols : List DeclarationSymbol) : Prop :=
  ∀ node ∈ preorder symbols, node.symbol.kind.isContainer = true → node.symbol.bareName ≠ []

/-! ## §2 The traversal -/

mutual

/-- What is met below given ancestors has those above it. -/
theorem DeclarationSymbol.isPrefix_of_mem_nodes {ancestors : List DeclarationSymbol} {node : Node} :
    ∀ {symbol : DeclarationSymbol}, node ∈ symbol.nodes ancestors → ancestors <+: node.ancestors
  | ⟨name, kind, detail, range, selectionRange, children, containerName⟩, hmem => by
    rcases List.mem_cons.mp hmem with rfl | hbelow
    · exact List.prefix_rfl
    · exact (List.prefix_append ancestors _).trans (isPrefix_of_mem_nodesAll hbelow)

private theorem isPrefix_of_mem_nodesAll {ancestors : List DeclarationSymbol} {node : Node} :
    ∀ {symbols : List DeclarationSymbol}, node ∈ nodesAll ancestors symbols →
      ancestors <+: node.ancestors
  | [], hmem => by simp [nodesAll] at hmem
  | symbol :: symbols, hmem => by
    rcases List.mem_append.mp hmem with hfirst | hrest
    · exact DeclarationSymbol.isPrefix_of_mem_nodes hfirst
    · exact isPrefix_of_mem_nodesAll hrest

end

/-- Below a symbol that is no container nothing is listed. -/
theorem filter_nodesAll_eq_nil {ancestors : List DeclarationSymbol} {symbol : DeclarationSymbol}
    (hkind : symbol.kind.isContainer = false) (symbols : List DeclarationSymbol) :
    (nodesAll (ancestors ++ [symbol]) symbols).filter Node.isMember = [] := by
  rw [List.filter_eq_nil_iff]
  intro node hmem hmember
  have habove : symbol ∈ node.ancestors :=
    (isPrefix_of_mem_nodesAll hmem).subset (by simp)
  have hall : node.ancestors.all (fun symbol => symbol.kind.isContainer) = true :=
    (Bool.and_eq_true_iff.mp hmember).2
  have hcontainer : symbol.kind.isContainer = true := List.all_eq_true.mp hall symbol habove
  simp [hkind] at hcontainer

/-- The path of the containers, outermost first. -/
def pathOf (ancestors : List DeclarationSymbol) : Text :=
  Text.join "." (ancestors.map DeclarationSymbol.bareName)

/-- A path of named containers is empty only if there are none: the traversal can tell whether a
member has an owner. -/
theorem pathOf_eq_nil_iff {ancestors : List DeclarationSymbol}
    (hnamed : ∀ symbol ∈ ancestors, symbol.bareName ≠ []) :
    pathOf ancestors = [] ↔ ancestors = [] := by
  constructor
  · intro hpath
    cases ancestors with
    | nil => rfl
    | cons symbol ancestors =>
      have hinfix : symbol.bareName <:+: pathOf (symbol :: ancestors) :=
        Text.isInfix_join (List.mem_map_of_mem List.mem_cons_self) _
      rw [hpath, List.infix_nil] at hinfix
      exact absurd hinfix (hnamed symbol List.mem_cons_self)
  · rintro rfl
    rfl

private theorem ownerPath_pathOf {ancestors : List DeclarationSymbol}
    (hnamed : ∀ symbol ∈ ancestors, symbol.bareName ≠ []) (symbol : DeclarationSymbol) :
    ownerPath (pathOf ancestors) symbol.bareName = pathOf (ancestors ++ [symbol]) := by
  unfold ownerPath
  split
  case isTrue hempty =>
    obtain rfl := (pathOf_eq_nil_iff hnamed).mp (List.isEmpty_iff.mp hempty)
    simp [pathOf]
  case isFalse hpath =>
    have hne : ancestors.map DeclarationSymbol.bareName ≠ [] := by
      intro hnil
      obtain rfl := List.map_eq_nil_iff.mp hnil
      exact hpath rfl
    simp [pathOf, Text.join_append_singleton hne]

private theorem ownerOfPath_pathOf {ancestors : List DeclarationSymbol}
    (hnamed : ∀ symbol ∈ ancestors, symbol.bareName ≠ []) (symbol : DeclarationSymbol) :
    ownerOfPath (pathOf ancestors) = Node.owner ⟨ancestors, symbol⟩ := by
  simp only [ownerOfPath, Node.owner, List.isEmpty_iff, pathOf_eq_nil_iff hnamed]
  rfl

/-- Named containers. -/
def AreNamedContainers (ancestors : List DeclarationSymbol) : Prop :=
  ∀ symbol ∈ ancestors, symbol.kind.isContainer = true ∧ symbol.bareName ≠ []

private theorem isLeaf_eq_false_of_isContainer {kind : DeclarationKind}
    (h : kind.isContainer = true) : kind.isLeaf = false := by
  cases kind <;> simp_all [DeclarationKind.isContainer, DeclarationKind.isLeaf,
    DeclarationKind.isCallable, DeclarationKind.isDataMember, DeclarationKind.isEnumConstant]

mutual

private theorem DeclarationSymbol.leavesIn_eq_filter {ancestors : List DeclarationSymbol}
    (habove : AreNamedContainers ancestors) :
    ∀ {symbol : DeclarationSymbol},
      (∀ node ∈ symbol.nodes ancestors,
        node.symbol.kind.isContainer = true → node.symbol.bareName ≠ []) →
      symbol.leavesIn (pathOf ancestors) =
        ((symbol.nodes ancestors).filter Node.isMember).map Node.leaf
  | ⟨name, kind, detail, range, selectionRange, children, containerName⟩, hnames => by
    have hpath := fun symbol hmem => (habove symbol hmem).2
    have hall : ancestors.all (fun symbol => symbol.kind.isContainer) = true :=
      List.all_eq_true.mpr fun symbol hmem => (habove symbol hmem).1
    rw [DeclarationSymbol.nodes_eq] at hnames ⊢
    rw [DeclarationSymbol.leavesIn_eq, List.filter_cons]
    generalize hsymbol : (⟨name, kind, detail, range, selectionRange, children, containerName⟩ :
      DeclarationSymbol) = symbol at hnames ⊢
    obtain rfl : symbol.children = children := by rw [← hsymbol]
    split
    case isTrue hcontainer =>
      -- a container is not listed, and its name joins the path to its children
      have hown : Node.isMember ⟨ancestors, symbol⟩ = false := by
        simp [Node.isMember, isLeaf_eq_false_of_isContainer hcontainer]
      have hbelow : AreNamedContainers (ancestors ++ [symbol]) := by
        intro other hmem
        rcases List.mem_append.mp hmem with hold | hnew
        · exact habove other hold
        · rw [List.mem_singleton.mp hnew]
          exact ⟨hcontainer, hnames _ List.mem_cons_self hcontainer⟩
      rw [ownerPath_pathOf hpath, hown]
      exact leavesInAll_eq_filter hbelow fun node hmem => hnames node (List.mem_cons_of_mem _ hmem)
    case isFalse hother =>
      -- nothing is listed below, whatever the symbol itself is
      rw [filter_nodesAll_eq_nil (by simpa using hother), Node.isMember, hall, Bool.and_true]
      split
      case isTrue => simp [Node.leaf, ownerOfPath_pathOf hpath symbol]
      case isFalse => rfl

/-- **What the traversal lists** below given ancestors. -/
theorem leavesInAll_eq_filter {ancestors : List DeclarationSymbol}
    (habove : AreNamedContainers ancestors) :
    ∀ {symbols : List DeclarationSymbol},
      (∀ node ∈ nodesAll ancestors symbols,
        node.symbol.kind.isContainer = true → node.symbol.bareName ≠ []) →
      leavesInAll (pathOf ancestors) symbols =
        ((nodesAll ancestors symbols).filter Node.isMember).map Node.leaf
  | [], _ => rfl
  | symbol :: symbols, hnames => by
    rw [nodesAll] at hnames
    rw [leavesInAll, nodesAll, List.filter_append, List.map_append,
      DeclarationSymbol.leavesIn_eq_filter habove fun node hmem =>
        hnames node (List.mem_append_left _ hmem),
      leavesInAll_eq_filter habove fun node hmem => hnames node (List.mem_append_right _ hmem)]

end

/-! ## §3 Owners -/

/-- The last part of a path is its innermost name, unless that has a dot itself. -/
theorem Node.ownerSimpleName_leaf {node : Node} {innermost : DeclarationSymbol}
    (hlast : node.ancestors.getLast? = some innermost) (hdot : '.' ∉ innermost.bareName) :
    node.leaf.ownerSimpleName = innermost.bareName := by
  have hnone : innermost.bareName.cutLast? "." = none :=
    Text.cutLast?_eq_none (Text.has_eq_false_of_not_mem (m := '.') (by decide) hdot)
  obtain ⟨outer, houter⟩ := List.getLast?_eq_some_iff.mp hlast
  have howner : node.owner = pathOf (outer ++ [innermost]) := by
    simp [Node.owner, pathOf, houter]
  rw [Leaf.ownerSimpleName, Node.leaf, howner]
  by_cases hnil : outer = []
  · have hpath : pathOf (outer ++ [innermost]) = innermost.bareName := by simp [hnil, pathOf]
    rw [hpath, hnone]
    rfl
  · -- the dot in front of the innermost name is the last one
    have hpath : pathOf (outer ++ [innermost]) = pathOf outer ++ '.' :: innermost.bareName := by
      have hne : outer.map DeclarationSymbol.bareName ≠ [] := by simpa using hnil
      simp [pathOf, Text.join_append_singleton hne]
    have hdotted : Text.cutLast? ('.' :: innermost.bareName) "." =
        some ([], innermost.bareName) := by
      rw [Text.cutLast?, hnone]
      simp [Text.after?]
    rw [hpath, Text.cutLast?_front hdotted]
    rfl

/-! ## §4 The whole outline -/

/-- **The leaves of an outline are its members in preorder.**  Where every container has a name, the
traversal lists each node that is a member and has containers only above it, once and unchanged, in
the order in which the nodes are met, with the dotted names of its ancestors as its owner; and the
simple name of the owner is the innermost of them unless that has a dot. -/
theorem leaves_preorder (symbols : List DeclarationSymbol) (hnames : NamesContainers symbols) :
    leaves symbols = ((preorder symbols).filter Node.isMember).map Node.leaf ∧
      ∀ node ∈ preorder symbols, ∀ innermost ∈ node.ancestors.getLast?,
        '.' ∉ innermost.bareName → node.leaf.ownerSimpleName = innermost.bareName := by
  have houtermost : AreNamedContainers [] := by simp [AreNamedContainers]
  refine ⟨leavesInAll_eq_filter houtermost hnames, ?_⟩
  intro node _ innermost hlast hdot
  exact Node.ownerSimpleName_leaf hlast hdot

/-- A class with a type parameter in its name, an enum in it and a local variable in one of its
methods, behind a package with a field. -/
def orderOutline : List DeclarationSymbol :=
  let entry := fun (name : String) kind children =>
    ({ name := name.toList, kind, range := .ofLines 0 9, selectionRange := .ofLines 0 0,
       children } : DeclarationSymbol)
  [entry "shop" .other [entry "debug" .field []],
    entry "Order : Base" .classType
      [entry "Status" .enumType [entry "OPEN" .enumMember []],
        entry "total()" .method [entry "sum" .field []]],
    entry "main" .function []]

/-- Neither the field of the package nor the local variable is listed. -/
theorem leaves_preorder_order :
    NamesContainers orderOutline ∧
      (leaves orderOutline).map (fun leaf => (leaf.symbol.name, leaf.owner, leaf.ownerSimpleName)) =
        [("OPEN".toList, "Order.Status".toList, "Status".toList),
          ("total()".toList, "Order".toList, "Order".toList),
          ("main".toList, "unknown".toList, "unknown".toList)] := by
  have hnames : NamesContainers orderOutline := by
    unfold NamesContainers
    decide +kernel
  refine ⟨hnames, ?_⟩
  rw [(leaves_preorder orderOutline hnames).1]
  decide +kernel

end DeclDocs
