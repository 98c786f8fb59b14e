import DeclDocs.Outline.Symbol

/-!
# Leaves of an outline

The members of all containers of an outline in the order in which they are met, each with the path
of the containers around it.  Containers themselves are not listed, and nothing inside a member or
a declaration of another kind is visited.
-/

namespace DeclDocs

/-- The owner of a declaration outside all containers. -/
def unknownOwner : Text := "unknown"

/-- A member and its owner. -/
structure Leaf where
  symbol : DeclarationSymbol
  /-- The names of the containers around the member, outermost first, joined by dots. -/
  owner : Text

/-- The name of the innermost container. -/
def Leaf.ownerSimpleName (leaf : Leaf) : Text :=
  (leaf.owner.cutLast? ".").elim leaf.owner Prod.snd

/-- The path of a container inside the container with path `owner`. -/
def ownerPath (owner name : Text) : Text :=
  if owner.isEmpty then name else owner ++ "." ++ name

/-- The owner that a path stands for. -/
def ownerOfPath (path : Text) : Text :=
  if path.isEmpty then unknownOwner else path

mutual

/-- The leaves at and below a symbol inside the container with path `owner`. -/
def DeclarationSymbol.leavesIn (owner : Text) : DeclarationSymbol → List Leaf
  | ⟨name, kind, detail, range, selectionRange, children, containerName⟩ =>
    let symbol := ⟨name, kind, detail, range, selectionRange, children, containerName⟩
    if kind.isContainer then
      leavesInAll (ownerPath owner (DeclarationSymbol.bareName symbol)) children
    else if kind.isLeaf then [⟨symbol, ownerOfPath owner⟩]
    else []

/-- The leaves of several symbols inside the container with path `owner`. -/
def leavesInAll (owner : Text) : List DeclarationSymbol → List Leaf
  | [] => []
  | symbol :: symbols => symbol.leavesIn owner ++ leavesInAll owner symbols

end

/-- The leaves of an outline. -/
def leaves (symbols : List DeclarationSymbol) : List Leaf :=
  leavesInAll [] symbols

end DeclDocs
