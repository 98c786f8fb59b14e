import DeclDocs.Text.WordChar

/-!
# Visibility

The access level of a member is the first access word of its declaration; a declaration without
one is visible in its package.  Only whole words count.
-/

namespace DeclDocs

/-- Access level of a member. -/
inductive Visibility where
  | isPublic
  | isProtected
  | isPrivate
  | isPackage
deriving DecidableEq, Repr

namespace Visibility

/-- The level that a keyword names. -/
def ofWord? (word : Text) : Option Visibility :=
  if word = "public" then some isPublic
  else if word = "protected" then some isProtected
  else if word = "private" then some isPrivate
  else none

/-- The level of a declaration: that of its first access keyword. -/
def ofDeclaration (text : Text) : Visibility :=
  (text.keywords.findSome? ofWord?).getD isPackage

/-- The name of the level. -/
def name : Visibility → Text
  | isPublic => "public"
  | isProtected => "protected"
  | isPrivate => "private"
  | isPackage => "package"

/-- Every level, in the order of their names above. -/
def all : List Visibility := [isPublic, isProtected, isPrivate, isPackage]

end Visibility

end DeclDocs
