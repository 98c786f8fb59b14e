import DeclDocs.Lexical.Mask

/-!
# Signatures

The text of a method's declaration up to the end of its parameter list, with the parameters and
the return type read from it.
-/

namespace DeclDocs

/-- A parameter with its declared type. -/
structure Parameter where
  name : Text
  typeName : Text
deriving DecidableEq, Repr

/-- A declaration text and what it says about types. -/
structure Signature where
  text : Text
  parameters : List Parameter
  /-- Absent for constructors and for methods that return nothing. -/
  returnType : Option Text
deriving DecidableEq, Repr

namespace Signature

/-- The declared type of the first parameter called `name`. -/
def typeOf? (signature : Signature) (name : Text) : Option Text :=
  (signature.parameters.find? fun parameter => parameter.name == name).map Parameter.typeName

/-- `name(Type1, Type2)`. -/
def display (signature : Signature) (name : Text) : Text :=
  name ++ "(" ++ Text.join ", " (signature.parameters.map Parameter.typeName) ++ ")"

/-- The text opens a parenthesis outside literals. -/
def hasParameterList (signature : Signature) : Bool :=
  (cutCode? '(' signature.text).isSome

end Signature

end DeclDocs
