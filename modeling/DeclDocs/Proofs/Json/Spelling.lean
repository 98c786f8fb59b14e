import DeclDocs.Json.Decode
import Mathlib.Data.List.Nodup
import Mathlib.Data.List.Forall2

/-!
# Spellings of records

A record can be written as JSON in several ways that all mean the same: the fields of an object have
no order, an object may have fields that the record does not know, a field without a value may be
left out or written as `null`, and a record may be written as the array of its fields.

* `RecordType.fields`: the fields of every record that is exchanged as JSON, in the order of their
  declaration.
* `Respelled`: two JSON values differ by such changes, at any depth.
* `lookup?_perm`: the order of the fields of an object does not matter.
-/

namespace DeclDocs

namespace Json

/-! ## §1 Fields of an object -/

theorem lookup?_eq_none_iff {name : Text} {fields : List (Text × Json)} :
    lookup? name fields = none ↔ name ∉ fields.map Prod.fst := by
  induction fields with
  | nil => simp [lookup?]
  | cons field fields ih =>
    by_cases hname : field.1 = name
    · simp [lookup?, hname]
    · simp [lookup?, hname, ih, Ne.symm hname]

theorem lookup?_append (name : Text) (front back : List (Text × Json)) :
    lookup? name (front ++ back) = (lookup? name front).or (lookup? name back) := by
  induction front with
  | nil => rfl
  | cons field front ih =>
    by_cases hname : field.1 = name
    · simp [lookup?, hname]
    · simp [lookup?, hname, ih]

theorem mem_of_lookup? {name : Text} {value : Json} {fields : List (Text × Json)}
    (h : lookup? name fields = some value) : (name, value) ∈ fields := by
  induction fields with
  | nil => cases h
  | cons field fields ih =>
    rw [lookup?] at h
    split at h
    case isTrue hname =>
      obtain rfl := Option.some.inj h
      rw [← hname]
      exact List.mem_cons_self ..
    case isFalse => exact List.mem_cons_of_mem _ (ih h)

/-- In an object without repeated names every field is found. -/
theorem lookup?_eq_some_iff {name : Text} {value : Json} {fields : List (Text × Json)}
    (hdistinct : (fields.map Prod.fst).Nodup) :
    lookup? name fields = some value ↔ (name, value) ∈ fields := by
  induction fields with
  | nil => simp [lookup?]
  | cons field fields ih =>
    obtain ⟨key, held⟩ := field
    rw [List.map_cons, List.nodup_cons] at hdistinct
    by_cases hname : key = name
    · subst hname
      have habsent : (key, value) ∉ fields := by
        intro hmem
        apply hdistinct.1
        simpa using ⟨value, hmem⟩
      simp [lookup?, habsent, eq_comm]
    · simp [lookup?, hname, ih hdistinct.2, Ne.symm hname]

/-- The order of the fields of an object does not matter. -/
theorem lookup?_perm {fields others : List (Text × Json)}
    (hdistinct : (fields.map Prod.fst).Nodup) (h : fields.Perm others) (name : Text) :
    lookup? name fields = lookup? name others := by
  have hdistinct' : (others.map Prod.fst).Nodup := (h.map Prod.fst).nodup_iff.mp hdistinct
  ext value
  rw [lookup?_eq_some_iff hdistinct, lookup?_eq_some_iff hdistinct', h.mem_iff]

end Json

/-! ## §2 Records and their fields -/

/-- The records that are exchanged as JSON. -/
inductive RecordType where
  | position
  | range
  | symbol
  /-- A symbol in the tree that a provider answers with. -/
  | treeSymbol
  /-- A symbol in the flat list that a provider answers with. -/
  | flatSymbol
  | location
  | parameter
  | paramTag
  | returnTag
  | throwsTag
  | tagTable
  | method
  | field
  | enumConstant
  | authorship
  | model
deriving DecidableEq, Repr

/-- What is known of the form of a JSON value before it is decoded. -/
inductive Shape where
  /-- Text, a number, a truth value or a name. -/
  | scalar
  | record (type : RecordType)
  | list (item : Shape)
deriving DecidableEq, Repr

/-- Whether a field may be left out. -/
inductive Presence where
  | required
  /-- The field has no value when it is left out or `null`. -/
  | optional
  /-- The field is an empty list when it is left out. -/
  | defaulted
deriving DecidableEq, Repr

/-- A field of a record. -/
structure FieldShape where
  name : Text
  shape : Shape
  presence : Presence
deriving DecidableEq, Repr

namespace FieldShape

def required (name : Text) (shape : Shape) : FieldShape := ⟨name, shape, .required⟩

def optional (name : Text) (shape : Shape) : FieldShape := ⟨name, shape, .optional⟩

def defaulted (name : Text) (item : Shape) : FieldShape := ⟨name, .list item, .defaulted⟩

end FieldShape

/-- The fields of a record in the order of their declaration. -/
def RecordType.fields : RecordType → List FieldShape
  | position => [.required "line" .scalar, .required "character" .scalar]
  | range => [.required "start" (.record position), .required "end" (.record position)]
  | symbol =>
    [.required "name" .scalar, .required "kind" .scalar, .optional "detail" .scalar,
      .required "range" (.record range), .required "selectionRange" (.record range),
      .defaulted "children" (.record symbol), .optional "containerName" .scalar]
  | treeSymbol =>
    [.required "name" .scalar, .required "kind" .scalar, .optional "detail" .scalar,
      .required "range" (.record range), .required "selectionRange" (.record range),
      .defaulted "children" (.record treeSymbol)]
  | flatSymbol =>
    [.required "name" .scalar, .required "kind" .scalar, .required "location" (.record location),
      .optional "containerName" .scalar]
  | location => [.required "range" (.record range)]
  | parameter => [.required "name" .scalar, .required "type" .scalar]
  | paramTag =>
    [.required "name" .scalar, .required "type" .scalar, .required "description" .scalar]
  | returnTag => [.required "type" .scalar, .required "description" .scalar]
  | throwsTag => [.required "exception" .scalar, .required "description" .scalar]
  | tagTable =>
    [.required "params" (.list (.record paramTag)), .optional "returns" (.record returnTag),
      .required "throws" (.list (.record throwsTag)), .optional "since" .scalar,
      .optional "author" .scalar, .optional "deprecated" .scalar, .optional "doc" .scalar,
      .optional "example" .scalar, .required "see" (.list .scalar)]
  | method =>
    [.required "id" .scalar, .required "kind" .scalar, .required "name" .scalar,
      .required "displaySignature" .scalar, .required "signature" .scalar,
      .required "parameters" (.list (.record parameter)), .optional "returnType" .scalar,
      .required "startLine" .scalar, .required "endLine" .scalar, .required "hasComment" .scalar,
      .required "description" .scalar, .required "tags" (.record tagTable),
      .required "owner" .scalar, .required "visibility" .scalar]
  | field =>
    [.required "name" .scalar, .required "type" .scalar, .required "declaration" .scalar,
      .required "startLine" .scalar, .required "hasComment" .scalar,
      .required "description" .scalar, .required "isConstant" .scalar,
      .required "visibility" .scalar, .required "owner" .scalar]
  | enumConstant =>
    [.required "name" .scalar, .required "startLine" .scalar, .required "hasComment" .scalar,
      .required "description" .scalar, .required "arguments" .scalar, .required "owner" .scalar]
  | authorship =>
    [.required "author" .scalar, .required "lastModifier" .scalar,
      .required "lastModifyDate" .scalar]
  | model =>
    [.required "document" .scalar, .required "containerName" .scalar,
      .required "hasComment" .scalar, .required "description" .scalar,
      .optional "packageName" .scalar, .optional "containerLine" .scalar,
      .required "methods" (.list (.record method)), .required "fields" (.list (.record field)),
      .required "enumConstants" (.list (.record enumConstant)),
      .optional "authorship" (.record authorship), .optional "author" .scalar,
      .optional "since" .scalar, .required "source" .scalar]

namespace RecordType

/-- The names of the fields. -/
def names (type : RecordType) : List Text :=
  type.fields.map FieldShape.name

theorem names_nodup (type : RecordType) : type.names.Nodup := by
  cases type <;> decide

/-- Fields of one name are the same field. -/
theorem eq_of_name_eq {type : RecordType} {a b : FieldShape} (ha : a ∈ type.fields)
    (hb : b ∈ type.fields) (h : a.name = b.name) : a = b :=
  List.inj_on_of_nodup_map type.names_nodup ha hb h

end RecordType

/-! ## §3 Respelling -/

/-- An item of an array stands for a field of an object: it is the field's value, or `null` for a
field without one. -/
def StandsFor (fields : List (Text × Json)) (field : FieldShape) (item : Json) : Prop :=
  Json.lookup? field.name fields = some item ∨
    field.presence = .optional ∧ Json.lookup? field.name fields = none ∧ item = .null

/-- Two JSON values of the given shape spell the same, whether or not they decode. -/
inductive Respelled : Shape → Json → Json → Prop where
  | refl (shape : Shape) (value : Json) : Respelled shape value value
  | symm {shape : Shape} {a b : Json} : Respelled shape a b → Respelled shape b a
  | trans {shape : Shape} {a b c : Json} :
      Respelled shape a b → Respelled shape b c → Respelled shape a c
  /-- The fields of an object change their order. -/
  | permuted {type : RecordType} {fields others : List (Text × Json)}
      (distinct : (fields.map Prod.fst).Nodup) (same : fields.Perm others) :
      Respelled (.record type) (.obj fields) (.obj others)
  /-- A field is added that the record does not know. -/
  | unknown {type : RecordType} (fields : List (Text × Json)) {name : Text} (value : Json)
      (foreign : name ∉ type.names) :
      Respelled (.record type) (.obj fields) (.obj (fields ++ [(name, value)]))
  /-- An absent field that may have no value is written as `null`. -/
  | null {type : RecordType} {fields : List (Text × Json)} {field : FieldShape}
      (known : field ∈ type.fields) (optional : field.presence = .optional)
      (absent : field.name ∉ fields.map Prod.fst) :
      Respelled (.record type) (.obj fields) (.obj (fields ++ [(field.name, .null)]))
  /-- An absent list is written as the empty list. -/
  | empty {type : RecordType} {fields : List (Text × Json)} {field : FieldShape}
      (known : field ∈ type.fields) (defaulted : field.presence = .defaulted)
      (absent : field.name ∉ fields.map Prod.fst) :
      Respelled (.record type) (.obj fields) (.obj (fields ++ [(field.name, .arr [])]))
  /-- A record is written as the array of its fields. -/
  | placed {type : RecordType} {fields : List (Text × Json)} {items : List Json}
      (ordered : List.Forall₂ (StandsFor fields) type.fields items) :
      Respelled (.record type) (.obj fields) (.arr items)
  /-- The value of a field is respelled. -/
  | field {type : RecordType} (before after : List (Text × Json)) {field : FieldShape}
      {value other : Json} (known : field ∈ type.fields) (inner : Respelled field.shape value other) :
      Respelled (.record type) (.obj (before ++ (field.name, value) :: after))
        (.obj (before ++ (field.name, other) :: after))
  /-- An item of a record that is written as an array is respelled. -/
  | place {type : RecordType} {before : List Json} (after : List Json) {field : FieldShape}
      {value other : Json} (known : type.fields[before.length]? = some field)
      (inner : Respelled field.shape value other) :
      Respelled (.record type) (.arr (before ++ value :: after)) (.arr (before ++ other :: after))
  /-- An item of a list is respelled. -/
  | item {shape : Shape} (before after : List Json) {value other : Json}
      (inner : Respelled shape value other) :
      Respelled (.list shape) (.arr (before ++ value :: after)) (.arr (before ++ other :: after))

end DeclDocs
