import DeclDocs.Model.Encode
import DeclDocs.Outline.Wire
import DeclDocs.Proofs.Json.Spelling

/-!
# Respelled values decode alike

A decoder sees a record only through its fields, by name in an object and by place in an array.  Two
records whose fields are read alike decode alike, whether the decoder accepts them or not, and every
respelling leaves the fields of a record alike.

* `Json.tree?_eq`: a node of a tree is a record with a list of nodes among its fields.
* `Shape.ReadsAlike`: two values of a shape are the same for the decoders of that shape.
* `Respelled.readsAlike`: respelled values are.
-/

namespace DeclDocs

/-! ## §1 Trees of records -/

namespace Json

/-- A list that is empty when its field is absent. -/
def Record.defaulted? {α : Type} (record : Record) (place : Nat) (name : Text)
    (decode? : Json → Option (List α)) : Option (List α) :=
  match record.get? place name with
  | none => some []
  | some value => decode? value

namespace Record

variable {α : Type} {record : Record} {place : Nat} {name : Text} {value : Json}

theorem optional?_of_absent (h : record.get? place name = none) (decode? : Json → Option α) :
    record.optional? place name decode? = some none := by
  rw [optional?, h]

theorem optional?_of_null (h : record.get? place name = some .null) (decode? : Json → Option α) :
    record.optional? place name decode? = some none := by
  rw [optional?, h]

theorem optional?_of_present (h : record.get? place name = some value) (hnull : value ≠ .null)
    (decode? : Json → Option α) :
    record.optional? place name decode? = (decode? value).map some := by
  rw [optional?, h]
  cases value with
  | null => exact absurd rfl hnull
  | _ => rfl

end Record

section Tree

variable {σ : Type} (size place : Nat) (node? : Record → List σ → Option σ)

theorem trees?_eq (items : List Json) :
    trees? size place node? items = items.mapM (tree? size place node?) := by
  induction items with
  | nil => rfl
  | cons item items ih =>
    simp only [trees?, ih, List.mapM_cons, Option.bind_eq_bind, Option.pure_def,
      Option.map_eq_bind, Function.comp_def]

private theorem forest?_eq (value : Json) :
    forest? size place node? value = value.list? (tree? size place node?) := by
  cases value with
  | arr items => exact trees?_eq size place node? items
  | _ => rfl

private theorem childrenNamed?_eq (fields : List (Text × Json)) :
    childrenNamed? size place node? fields =
      (Record.named fields).defaulted? place "children" (list? (tree? size place node?)) := by
  induction fields with
  | nil => rfl
  | cons field fields ih =>
    obtain ⟨name, value⟩ := field
    by_cases hname : name = "children".toList
    · simp [childrenNamed?, Record.defaulted?, Record.get?, lookup?, hname, forest?_eq]
    · simp only [childrenNamed?, Record.defaulted?, Record.get?, lookup?, hname, if_false] at ih ⊢
      exact ih

private theorem childrenPlaced?_eq (index : Nat) (items : List Json) :
    childrenPlaced? size place node? index items =
      (Record.placed items).defaulted? index "children" (list? (tree? size place node?)) := by
  induction items generalizing index with
  | nil => rfl
  | cons item items ih =>
    cases index with
    | zero => exact forest?_eq size place node? item
    | succ index => exact ih index

/-- A node of a tree is a record with a list of nodes among its fields. -/
theorem tree?_eq (value : Json) :
    tree? size place node? value = (value.record? size).bind fun record =>
      (record.defaulted? place "children" (list? (tree? size place node?))).bind (node? record) := by
  cases value with
  | obj fields => rw [tree?, childrenNamed?_eq]; rfl
  | arr items =>
    rw [tree?, record?]
    split
    case isTrue => rw [childrenPlaced?_eq]; rfl
    case isFalse => rfl
  | _ => rfl

end Tree

end Json

open Json (Record)

/-! ## §2 Values that decode alike -/

/-- The decoder of the records of the type does not tell the two values apart. -/
def RecordType.ReadsAlike : RecordType → Json → Json → Prop
  | position, a, b => Position.ofJson? a = Position.ofJson? b
  | range, a, b => Range.ofJson? a = Range.ofJson? b
  | symbol, a, b => DeclarationSymbol.ofJson? a = DeclarationSymbol.ofJson? b
  | treeSymbol, a, b =>
    a.tree? 6 5 SymbolResponse.treeSymbol? = b.tree? 6 5 SymbolResponse.treeSymbol?
  | flatSymbol, a, b => SymbolResponse.flatSymbol? a = SymbolResponse.flatSymbol? b
  | location, a, b => SymbolResponse.locationRange? a = SymbolResponse.locationRange? b
  | parameter, a, b => Parameter.ofJson? a = Parameter.ofJson? b
  | paramTag, a, b => ParamTag.ofJson? a = ParamTag.ofJson? b
  | returnTag, a, b => ReturnTag.ofJson? a = ReturnTag.ofJson? b
  | throwsTag, a, b => ThrowsTag.ofJson? a = ThrowsTag.ofJson? b
  | tagTable, a, b => TagTable.ofJson? a = TagTable.ofJson? b
  | method, a, b => MethodDoc.ofJson? a = MethodDoc.ofJson? b
  | field, a, b => FieldDoc.ofJson? a = FieldDoc.ofJson? b
  | enumConstant, a, b => EnumConstantDoc.ofJson? a = EnumConstantDoc.ofJson? b
  | authorship, a, b => Authorship.ofJson? a = Authorship.ofJson? b
  | model, a, b => DocumentModel.ofJson? a = DocumentModel.ofJson? b

/-- No decoder of values of the shape tells the two values apart. -/
def Shape.ReadsAlike : Shape → Json → Json → Prop
  | scalar, a, b => a = b
  | record type, a, b => type.ReadsAlike a b
  | list item, a, b => ∀ (α : Type) (decode? : Json → Option α),
      (∀ x y, item.ReadsAlike x y → decode? x = decode? y) → a.list? decode? = b.list? decode?

namespace Shape

variable {shape : Shape} {a b c : Json}

theorem ReadsAlike.refl (shape : Shape) (value : Json) : shape.ReadsAlike value value := by
  cases shape with
  | scalar => exact Eq.refl value
  | record type => cases type <;> exact Eq.refl _
  | list item => exact fun _ _ _ => rfl

theorem ReadsAlike.symm (h : shape.ReadsAlike a b) : shape.ReadsAlike b a := by
  cases shape with
  | scalar => exact Eq.symm h
  | record type => cases type <;> exact Eq.symm h
  | list item => exact fun α decode? hitem => (h α decode? hitem).symm

theorem ReadsAlike.trans (hab : shape.ReadsAlike a b) (hbc : shape.ReadsAlike b c) :
    shape.ReadsAlike a c := by
  cases shape with
  | scalar => exact Eq.trans hab hbc
  | record type => cases type <;> exact Eq.trans hab hbc
  | list item => exact fun α decode? hitem => (hab α decode? hitem).trans (hbc α decode? hitem)

end Shape

/-- What two records have at one of their fields is read alike. -/
inductive FieldShape.Alike (field : FieldShape) : Option Json → Option Json → Prop where
  | absent : Alike field none none
  | present {a b : Json} (alike : field.shape.ReadsAlike a b) (null : a = .null ↔ b = .null) :
      Alike field (some a) (some b)
  | null (optional : field.presence = .optional) : Alike field none (some .null)
  | empty (defaulted : field.presence = .defaulted) : Alike field none (some (.arr []))

theorem FieldShape.Alike.refl (field : FieldShape) (value : Option Json) :
    field.Alike value value := by
  cases value with
  | none => exact .absent
  | some value => exact .present (.refl field.shape value) Iff.rfl

/-- Two records have fields that are read alike. -/
def RecordType.Alike (type : RecordType) (a b : Record) : Prop :=
  ∀ (place : Nat) (field : FieldShape), type.fields[place]? = some field →
    field.Alike (a.get? place field.name) (b.get? place field.name)

namespace RecordType.Alike

variable {type : RecordType} {a b : Record} (h : type.Alike a b) {α : Type}
include h

theorem required? (place : Nat) {name : Text} {shape : Shape}
    (hfield : type.fields[place]? = some (.required name shape)) {decode? : Json → Option α}
    (hdecode : ∀ x y, shape.ReadsAlike x y → decode? x = decode? y) :
    a.required? place name decode? = b.required? place name decode? := by
  have halike : (FieldShape.required name shape).Alike (a.get? place name) (b.get? place name) :=
    h place _ hfield
  unfold Record.required?
  generalize a.get? place name = x at halike ⊢
  generalize b.get? place name = y at halike ⊢
  cases halike with
  | absent => rfl
  | present alike _ => exact hdecode _ _ alike
  | null optional => cases optional
  | empty defaulted => cases defaulted

theorem optional? (place : Nat) {name : Text} {shape : Shape}
    (hfield : type.fields[place]? = some (.optional name shape)) {decode? : Json → Option α}
    (hdecode : ∀ x y, shape.ReadsAlike x y → decode? x = decode? y) :
    a.optional? place name decode? = b.optional? place name decode? := by
  have halike : (FieldShape.optional name shape).Alike (a.get? place name) (b.get? place name) :=
    h place _ hfield
  generalize hx : a.get? place name = x at halike
  generalize hy : b.get? place name = y at halike
  cases halike with
  | absent => rw [Record.optional?_of_absent hx, Record.optional?_of_absent hy]
  | @present x y alike null =>
    by_cases hnull : x = .null
    · rw [hnull] at hx
      rw [null.mp hnull] at hy
      rw [Record.optional?_of_null hx, Record.optional?_of_null hy]
    · rw [Record.optional?_of_present hx hnull, hdecode x y alike,
        Record.optional?_of_present hy (mt null.mpr hnull)]
  | null optional => rw [Record.optional?_of_absent hx, Record.optional?_of_null hy]
  | empty defaulted => cases defaulted

theorem defaulted? (place : Nat) {name : Text} {item : Shape}
    (hfield : type.fields[place]? = some (.defaulted name item)) {decode? : Json → Option α}
    (hdecode : ∀ x y, item.ReadsAlike x y → decode? x = decode? y) :
    a.defaulted? place name (Json.list? decode?) = b.defaulted? place name (Json.list? decode?) := by
  have halike : (FieldShape.defaulted name item).Alike (a.get? place name) (b.get? place name) :=
    h place _ hfield
  unfold Record.defaulted?
  generalize a.get? place name = x at halike ⊢
  generalize b.get? place name = y at halike ⊢
  cases halike with
  | absent => rfl
  | present alike _ => exact alike α decode? hdecode
  | null optional => cases optional
  | empty defaulted => rfl

/-- A field of any decoder. -/
theorem scalar (place : Nat) {name : Text}
    (hfield : type.fields[place]? = some (.required name .scalar)) (decode? : Json → Option α) :
    a.required? place name decode? = b.required? place name decode? :=
  h.required? place hfield fun _ _ => congrArg decode?

private theorem optionalScalar (place : Nat) {name : Text}
    (hfield : type.fields[place]? = some (.optional name .scalar)) (decode? : Json → Option α) :
    a.optional? place name decode? = b.optional? place name decode? :=
  h.optional? place hfield fun _ _ => congrArg decode?

theorem list (place : Nat) {name : Text} {item : Shape}
    (hfield : type.fields[place]? = some (.required name (.list item))) {decode? : Json → Option α}
    (hdecode : ∀ x y, item.ReadsAlike x y → decode? x = decode? y) :
    a.required? place name (Json.list? decode?) = b.required? place name (Json.list? decode?) :=
  h.required? place hfield fun _ _ halike => halike α decode? hdecode

end RecordType.Alike

/-! ## §3 Records that decode alike -/

/-- Neither value is a record of the type, or both are and are read alike. -/
inductive RecordType.Matches (type : RecordType) (a b : Json) : Prop where
  | refused (left : a.record? type.fields.length = none)
      (right : b.record? type.fields.length = none) : Matches type a b
  | read {x y : Record} (left : a.record? type.fields.length = some x)
      (right : b.record? type.fields.length = some y) (alike : type.Alike x y) : Matches type a b

namespace RecordType.Matches

variable {type : RecordType} {a b : Json}

private theorem bind_eq (h : type.Matches a b) {α : Type} {decode? : Record → Option α}
    (hdecode : ∀ {x y}, type.Alike x y → decode? x = decode? y) :
    (a.record? type.fields.length).bind decode? = (b.record? type.fields.length).bind decode? := by
  cases h with
  | refused left right => rw [left, right]
  | read left right alike => rw [left, right, Option.bind_some, Option.bind_some, hdecode alike]

theorem tree?_eq (h : type.Matches a b) {σ : Type} {place : Nat}
    {node? : Record → List σ → Option σ}
    (hchild : ∀ x y, type.ReadsAlike x y →
      x.tree? type.fields.length place node? = y.tree? type.fields.length place node?)
    (hfield : type.fields[place]? = some (.defaulted "children" (.record type)))
    (hnode : ∀ {x y}, type.Alike x y → ∀ children, node? x children = node? y children) :
    a.tree? type.fields.length place node? = b.tree? type.fields.length place node? := by
  rw [Json.tree?_eq, Json.tree?_eq _ _ _ b]
  refine h.bind_eq fun {x y} halike => ?_
  rw [halike.defaulted? place hfield hchild]
  exact Option.bind_congr fun children _ => hnode halike children

/-- A decoder reads the fields of its record one after the other. -/
theorem readsAlike (h : type.Matches a b) : type.ReadsAlike a b := by
  cases type with
  | position => exact h.bind_eq fun h => by simp only [h.scalar 0 rfl, h.scalar 1 rfl]
  | range =>
    exact h.bind_eq fun h => by
      simp only [h.required? 0 rfl fun _ _ => id, h.required? 1 rfl fun _ _ => id]
  | location => exact h.bind_eq fun h => h.required? 0 rfl fun _ _ => id
  | parameter => exact h.bind_eq fun h => by simp only [h.scalar 0 rfl, h.scalar 1 rfl]
  | paramTag =>
    exact h.bind_eq fun h => by simp only [h.scalar 0 rfl, h.scalar 1 rfl, h.scalar 2 rfl]
  | returnTag => exact h.bind_eq fun h => by simp only [h.scalar 0 rfl, h.scalar 1 rfl]
  | throwsTag => exact h.bind_eq fun h => by simp only [h.scalar 0 rfl, h.scalar 1 rfl]
  | authorship =>
    exact h.bind_eq fun h => by simp only [h.scalar 0 rfl, h.scalar 1 rfl, h.scalar 2 rfl]
  | flatSymbol =>
    exact h.bind_eq fun h => by
      simp only [h.scalar 0 rfl, h.scalar 1 rfl, h.required? 2 rfl fun _ _ => id,
        h.optionalScalar 3 rfl]
  | enumConstant =>
    exact h.bind_eq fun h => by
      simp only [h.scalar 0 rfl, h.scalar 1 rfl, h.scalar 2 rfl, h.scalar 3 rfl, h.scalar 4 rfl,
        h.scalar 5 rfl]
  | field =>
    exact h.bind_eq fun h => by
      simp only [h.scalar 0 rfl, h.scalar 1 rfl, h.scalar 2 rfl, h.scalar 3 rfl, h.scalar 4 rfl,
        h.scalar 5 rfl, h.scalar 6 rfl, h.scalar 7 rfl, h.scalar 8 rfl]
  | tagTable =>
    exact h.bind_eq fun h => by
      simp only [h.list 0 rfl fun _ _ => id, h.optional? 1 rfl fun _ _ => id,
        h.list 2 rfl fun _ _ => id, h.optionalScalar 3 rfl, h.optionalScalar 4 rfl,
        h.optionalScalar 5 rfl, h.optionalScalar 6 rfl, h.optionalScalar 7 rfl,
        h.list 8 rfl fun _ _ => congrArg Json.text?]
  | method =>
    exact h.bind_eq fun h => by
      simp only [h.scalar 0 rfl, h.scalar 1 rfl, h.scalar 2 rfl, h.scalar 3 rfl, h.scalar 4 rfl,
        h.list 5 rfl fun _ _ => id, h.optionalScalar 6 rfl, h.scalar 7 rfl, h.scalar 8 rfl,
        h.scalar 9 rfl, h.scalar 10 rfl, h.required? 11 rfl fun _ _ => id, h.scalar 12 rfl,
        h.scalar 13 rfl]
  | model =>
    exact h.bind_eq fun h => by
      simp only [h.scalar 0 rfl, h.scalar 1 rfl, h.scalar 2 rfl, h.scalar 3 rfl,
        h.optionalScalar 4 rfl, h.optionalScalar 5 rfl, h.list 6 rfl fun _ _ => id,
        h.list 7 rfl fun _ _ => id, h.list 8 rfl fun _ _ => id,
        h.optional? 9 rfl fun _ _ => id, h.optionalScalar 10 rfl, h.optionalScalar 11 rfl,
        h.scalar 12 rfl]
  | symbol =>
    exact h.tree?_eq (fun _ _ => id) rfl fun h children => by
      simp only [DeclarationSymbol.ofRecord?, h.scalar 0 rfl, h.scalar 1 rfl,
        h.optionalScalar 2 rfl, h.required? 3 rfl fun _ _ => id, h.required? 4 rfl fun _ _ => id,
        h.optionalScalar 6 rfl]
  | treeSymbol =>
    exact h.tree?_eq (fun _ _ => id) rfl fun h children => by
      simp only [SymbolResponse.treeSymbol?, h.scalar 0 rfl, h.scalar 1 rfl,
        h.optionalScalar 2 rfl, h.required? 3 rfl fun _ _ => id, h.required? 4 rfl fun _ _ => id]

end RecordType.Matches

/-! ## §4 Respellings -/

namespace RecordType.Matches

variable {type : RecordType}

/-- Objects are compared field by field. -/
theorem named {fields others : List (Text × Json)}
    (h : ∀ field ∈ type.fields,
      field.Alike (Json.lookup? field.name fields) (Json.lookup? field.name others)) :
    type.Matches (.obj fields) (.obj others) :=
  .read rfl rfl fun _ field hfield => h field (List.mem_of_getElem? hfield)

/-- A field behind the others matters only where its name is that of a field of the record. -/
theorem concat {fields : List (Text × Json)} {name : Text} {value : Json}
    (h : ∀ field ∈ type.fields, field.name = name →
      name ∉ fields.map Prod.fst ∧ field.Alike none (some value)) :
    type.Matches (.obj fields) (.obj (fields ++ [(name, value)])) := by
  refine named fun field hmem => ?_
  rw [Json.lookup?_append]
  by_cases hname : field.name = name
  · obtain ⟨habsent, halike⟩ := h field hmem hname
    rw [hname, Json.lookup?_eq_none_iff.mpr habsent]
    simpa [Json.lookup?] using halike
  · simpa [Json.lookup?, Ne.symm hname] using FieldShape.Alike.refl field _

/-- A field is written anew in its place. -/
theorem replaced (before after : List (Text × Json)) {field : FieldShape} {value other : Json}
    (hknown : field ∈ type.fields) (h : field.Alike (some value) (some other)) :
    type.Matches (.obj (before ++ (field.name, value) :: after))
      (.obj (before ++ (field.name, other) :: after)) := by
  refine named fun next hmem => ?_
  rw [Json.lookup?_append, Json.lookup?_append]
  cases hbefore : Json.lookup? next.name before with
  | some found => exact .refl next (some found)
  | none =>
    by_cases hname : field.name = next.name
    · obtain rfl := eq_of_name_eq hknown hmem hname
      simpa [Json.lookup?] using h
    · simpa [Json.lookup?, hname] using FieldShape.Alike.refl next _

/-- An item of an array is written anew in its place. -/
theorem replacedItem {before : List Json} (after : List Json) {field : FieldShape}
    {value other : Json} (hknown : type.fields[before.length]? = some field)
    (h : field.Alike (some value) (some other)) :
    type.Matches (.arr (before ++ value :: after)) (.arr (before ++ other :: after)) := by
  by_cases hlength : (before ++ value :: after).length ≤ type.fields.length
  · have hlength' : (before ++ other :: after).length ≤ type.fields.length := by
      simpa using hlength
    refine .read (if_pos hlength) (if_pos hlength') fun place next hnext => ?_
    by_cases hplace : place = before.length
    · subst hplace
      obtain rfl : next = field := by simpa [hknown, eq_comm] using hnext
      simpa [Record.get?] using h
    · have hsame : (before ++ value :: after)[place]? = (before ++ other :: after)[place]? := by
        grind
      simpa [Record.get?, hsame] using FieldShape.Alike.refl next _
  · have hlength' : ¬ (before ++ other :: after).length ≤ type.fields.length := by
      simpa using hlength
    exact .refused (if_neg hlength) (if_neg hlength')

/-- The fields of an object and the items that stand for them. -/
theorem placed {fields : List (Text × Json)} {items : List Json}
    (h : List.Forall₂ (StandsFor fields) type.fields items) :
    type.Matches (.obj fields) (.arr items) := by
  refine .read rfl (if_pos (Nat.le_of_eq h.length_eq.symm)) fun place field hfield => ?_
  obtain ⟨hplace, rfl⟩ := List.getElem?_eq_some_iff.mp hfield
  have hitem : place < items.length := h.length_eq ▸ hplace
  have hstands := h.get hplace hitem
  simp only [Record.get?, List.getElem?_eq_getElem hitem]
  rcases hstands with hsome | ⟨hoptional, hnone, hnull⟩
  · simp only [List.get_eq_getElem] at hsome
    rw [hsome]
    exact .refl _ _
  · simp only [List.get_eq_getElem] at hnone hnull hoptional
    rw [hnone, hnull]
    exact .null hoptional

end RecordType.Matches

/-- **Respelled values decode alike**, whether the decoder accepts them or not; and only `null` is
respelled as `null`. -/
theorem Respelled.readsAlike {shape : Shape} {a b : Json} (h : Respelled shape a b) :
    shape.ReadsAlike a b ∧ (a = .null ↔ b = .null) := by
  induction h with
  | refl shape value => exact ⟨.refl shape value, Iff.rfl⟩
  | symm _ ih => exact ⟨ih.1.symm, ih.2.symm⟩
  | trans _ _ ihab ihbc => exact ⟨ihab.1.trans ihbc.1, ihab.2.trans ihbc.2⟩
  | permuted distinct same =>
    refine ⟨(RecordType.Matches.named fun field _ => ?_).readsAlike, by simp⟩
    rw [Json.lookup?_perm distinct same]
    exact .refl field _
  | unknown fields value foreign =>
    refine ⟨(RecordType.Matches.concat fun field hmem hname => ?_).readsAlike, by simp⟩
    exact absurd (hname ▸ List.mem_map_of_mem hmem) foreign
  | null known optional absent =>
    refine ⟨(RecordType.Matches.concat fun field hmem hname => ?_).readsAlike, by simp⟩
    obtain rfl := RecordType.eq_of_name_eq hmem known hname
    exact ⟨absent, .null optional⟩
  | empty known defaulted absent =>
    refine ⟨(RecordType.Matches.concat fun field hmem hname => ?_).readsAlike, by simp⟩
    obtain rfl := RecordType.eq_of_name_eq hmem known hname
    exact ⟨absent, .empty defaulted⟩
  | placed ordered => exact ⟨(RecordType.Matches.placed ordered).readsAlike, by simp⟩
  | field before after known _ ih =>
    have halike := FieldShape.Alike.present ih.1 ih.2
    exact ⟨(RecordType.Matches.replaced before after known halike).readsAlike, by simp⟩
  | place after known _ ih =>
    have halike := FieldShape.Alike.present ih.1 ih.2
    exact ⟨(RecordType.Matches.replacedItem after known halike).readsAlike, by simp⟩
  | item before after _ ih =>
    refine ⟨fun α decode? hdecode => ?_, by simp⟩
    simp only [Json.list?, List.mapM_append, List.mapM_cons, hdecode _ _ ih.1]

end DeclDocs
