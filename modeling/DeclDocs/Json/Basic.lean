import DeclDocs.Text.Basic

/-!
# JSON values

Symbol dumps, provider answers and documentation models are exchanged as JSON.  An object keeps its
fields in order.  A number is an integer or something else: no part of the library computes with
fractions, so other numbers are kept as they are written.
-/

namespace DeclDocs

/-- A JSON value. -/
inductive Json where
  | null
  | bool (value : Bool)
  /-- A whole number written without fraction and exponent. -/
  | int (value : Int)
  /-- Any other number, as written. -/
  | real (digits : Text)
  | str (value : Text)
  | arr (items : List Json)
  | obj (fields : List (Text × Json))

namespace Json

/-- The value of the first field called `name`. -/
def lookup? (name : Text) : List (Text × Json) → Option Json
  | [] => none
  | (key, value) :: fields => if key = name then some value else lookup? name fields

/-- A field of an object. -/
def field? (value : Json) (name : Text) : Option Json :=
  match value with
  | obj fields => lookup? name fields
  | _ => none

/-- A natural number as JSON. -/
def nat (n : Nat) : Json := int n

/-- The value of an option, with `null` for none. -/
def ofOption (value : Option Json) : Json := value.getD null

/-- The fields that have a value. -/
def present : List (Text × Option Json) → List (Text × Json)
  | [] => []
  | (name, some value) :: fields => (name, value) :: present fields
  | (_, none) :: fields => present fields

/-- An object of fields, those without a value left out. -/
def ofFields (fields : List (Text × Option Json)) : Json := obj (present fields)

end Json

end DeclDocs
