import DeclDocs.Json.Basic

/-!
# Decoding JSON

Records are decoded from objects, by field name, or from arrays, by the place of the field in the
record's declaration.  Fields of an object that the record does not have are ignored; an array must
not have more items than the record has fields.  A field with a default may be absent, a field that
may have no value may also be `null`.

* `Json.Record`: the fields of a record value.
* `Json.tree?`: a tree whose nodes are records with a field of child nodes.
-/

namespace DeclDocs

namespace Json

/-! ## §1 Scalars -/

def text? : Json → Option Text
  | str value => some value
  | _ => none

def bool? : Json → Option Bool
  | bool value => some value
  | _ => none

/-- A natural number below `bound`. -/
def natBelow? (bound : Nat) : Json → Option Nat
  | int value => if 0 ≤ value ∧ value < bound then some value.toNat else none
  | _ => none

/-- A natural number of 32 bits. -/
def word32? (value : Json) : Option UInt32 :=
  (value.natBelow? UInt32.size).map UInt32.ofNat

/-- A natural number of 64 bits. -/
def word64? (value : Json) : Option Nat :=
  value.natBelow? UInt64.size

/-- A list of values, each of which decodes. -/
def list? {α : Type} (item? : Json → Option α) : Json → Option (List α)
  | arr items => items.mapM item?
  | _ => none

/-- One of the named choices: its name, or an object with that name as its only field and `null`
as its value. -/
def choice? {α : Type} (choices : List α) (name : α → Text) : Json → Option α
  | str value => choices.find? fun choice => name choice == value
  | obj [(value, null)] => choices.find? fun choice => name choice == value
  | _ => none

/-! ## §2 Records -/

/-- The fields of a record value. -/
inductive Record where
  | named (fields : List (Text × Json))
  | placed (items : List Json)

/-- The value as a record of `size` fields. -/
def record? (size : Nat) : Json → Option Record
  | obj fields => some (.named fields)
  | arr items => if items.length ≤ size then some (.placed items) else none
  | _ => none

namespace Record

/-- The field with the given place and name. -/
def get? (record : Record) (place : Nat) (name : Text) : Option Json :=
  match record with
  | named fields => lookup? name fields
  | placed items => items[place]?

/-- A field that must be present. -/
def required? {α : Type} (record : Record) (place : Nat) (name : Text)
    (decode? : Json → Option α) : Option α :=
  (record.get? place name).bind decode?

/-- A field that may be absent or `null`. -/
def optional? {α : Type} (record : Record) (place : Nat) (name : Text)
    (decode? : Json → Option α) : Option (Option α) :=
  match record.get? place name with
  | none => some none
  | some null => some none
  | some value => (decode? value).map some

end Record

/-! ## §3 Trees -/

section Tree

variable {σ : Type} (size place : Nat) (node? : Record → List σ → Option σ)

mutual

/-- A tree whose nodes are records of `size` fields with their child nodes in the field `children`
at the given place, or without children when that field is absent. -/
def tree? : Json → Option σ
  | obj fields => (childrenNamed? fields).bind (node? (.named fields))
  | arr items =>
    if items.length ≤ size then (childrenPlaced? place items).bind (node? (.placed items))
    else none
  | _ => none

/-- An array of trees. -/
def forest? : Json → Option (List σ)
  | arr items => trees? items
  | _ => none

/-- Trees, each of which decodes. -/
def trees? : List Json → Option (List σ)
  | [] => some []
  | item :: items => (tree? item).bind fun tree => (trees? items).map (tree :: ·)

/-- The child nodes among the fields of an object. -/
def childrenNamed? : List (Text × Json) → Option (List σ)
  | [] => some []
  | (name, value) :: fields => if name = "children" then forest? value else childrenNamed? fields

/-- The child nodes at a place of an array. -/
def childrenPlaced? : (place : Nat) → List Json → Option (List σ)
  | _, [] => some []
  | 0, value :: _ => forest? value
  | place + 1, _ :: items => childrenPlaced? place items

end

end Tree

end Json

end DeclDocs
