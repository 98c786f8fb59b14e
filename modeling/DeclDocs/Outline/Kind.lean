import DeclDocs.Text.Basic

/-!
# Kinds of declarations

The kinds that an outline distinguishes, and the groups in which the documentation model treats
them: containers have members, and callables, data members and enum constants are members.
-/

namespace DeclDocs

/-- The kind of a declaration. -/
inductive DeclarationKind where
  | classType
  | interfaceType
  | enumType
  | structType
  | method
  | constructor
  | function
  | field
  | property
  | constant
  | enumMember
  | other
deriving DecidableEq, Repr

namespace DeclarationKind

/-- The kind behind the number that symbol providers use for it. -/
def ofNumber : Nat → DeclarationKind
  | 5 => classType
  | 6 => method
  | 7 => property
  | 8 => field
  | 9 => constructor
  | 10 => enumType
  | 11 => interfaceType
  | 12 => function
  | 14 => constant
  | 22 => enumMember
  | 23 => structType
  | _ => other

/-- The name of the kind. -/
def name : DeclarationKind → Text
  | classType => "class"
  | interfaceType => "interface"
  | enumType => "enum"
  | structType => "struct"
  | method => "method"
  | constructor => "constructor"
  | function => "function"
  | field => "field"
  | property => "property"
  | constant => "constant"
  | enumMember => "enum_member"
  | other => "other"

/-- Every kind. -/
def all : List DeclarationKind :=
  [classType, interfaceType, enumType, structType, method, constructor, function, field, property,
   constant, enumMember, other]

/-- The declaration has members of its own. -/
def isContainer : DeclarationKind → Bool
  | classType | interfaceType | enumType | structType => true
  | _ => false

def isCallable : DeclarationKind → Bool
  | method | constructor | function => true
  | _ => false

def isDataMember : DeclarationKind → Bool
  | field | property | constant => true
  | _ => false

def isEnumConstant : DeclarationKind → Bool
  | enumMember => true
  | _ => false

/-- The declaration is a member: a callable, a data member or an enum constant. -/
def isLeaf (kind : DeclarationKind) : Bool :=
  kind.isCallable || kind.isDataMember || kind.isEnumConstant

end DeclarationKind

end DeclDocs
