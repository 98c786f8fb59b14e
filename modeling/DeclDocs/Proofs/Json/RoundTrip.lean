import DeclDocs.Proofs.Json.Respelling

/-!
# Values read back from JSON

Models, tag tables and symbols are written as objects in which fields without a value are left out.
What is written reads back, also after it has been respelled.

* `Json.Record.Holds`: the values that a record has at its fields.
* `RecordType.read_obj`, `RecordType.read_ofFields`: a decoder reads a written record.
* `RoundTrips`: values are read back from what they are written as and from its respellings.
* `roundTrips_stored`: models, tag tables and symbols are.
-/

namespace DeclDocs

/-! ## §1 Written records -/

namespace Json

private theorem lookup?_present_eq_none {fields : List (Text × Option Json)} {name : Text}
    (h : name ∉ fields.map Prod.fst) : lookup? name (present fields) = none := by
  fun_induction present fields with
  | case1 => rfl
  | case2 key value fields ih =>
    rw [List.map_cons, List.mem_cons, not_or] at h
    rw [lookup?, if_neg (Ne.symm h.1), ih h.2]
  | case3 key fields ih =>
    rw [List.map_cons, List.mem_cons, not_or] at h
    exact ih h.2

/-- Of the fields of an object those are found that have a value. -/
theorem lookup?_present {fields : List (Text × Option Json)}
    (hdistinct : (fields.map Prod.fst).Nodup) {name : Text} {value : Option Json}
    (h : (name, value) ∈ fields) : lookup? name (present fields) = value := by
  fun_induction present fields with
  | case1 => simp at h
  | case2 key held fields ih =>
    rw [List.map_cons, List.nodup_cons] at hdistinct
    rcases List.mem_cons.mp h with heq | hmem
    · cases heq
      exact if_pos rfl
    · have hne : key ≠ name := fun heq =>
        hdistinct.1 (List.mem_map.mpr ⟨_, hmem, heq.symm⟩)
      rw [lookup?, if_neg hne, ih hdistinct.2 hmem]
  | case3 key fields ih =>
    rw [List.map_cons, List.nodup_cons] at hdistinct
    rcases List.mem_cons.mp h with heq | hmem
    · cases heq
      exact lookup?_present_eq_none hdistinct.1
    · exact ih hdistinct.2 hmem

private theorem present_map_some (fields : List (Text × Json)) :
    present (fields.map fun field => (field.1, some field.2)) = fields := by
  induction fields with
  | nil => rfl
  | cons field fields ih => rw [List.map_cons, present, ih]

/-- The record has the given values at the fields of its type. -/
def Record.Holds (record : Record) (type : RecordType) (values : List (Option Json)) : Prop :=
  ∀ (place : Nat) (field : FieldShape) (value : Option Json), type.fields[place]? = some field →
    values[place]? = some value → record.get? place field.name = value

namespace Record.Holds

variable {record : Record} {type : RecordType} {values : List (Option Json)}
  (h : record.Holds type values) {α : Type} {decode? : Json → Option α}
include h

theorem required? (place : Nat) {name : Text} {shape : Shape} {value : Json} {result : α}
    (hfield : type.fields[place]? = some (.required name shape))
    (hvalue : values[place]? = some (some value)) (hdecode : decode? value = some result) :
    record.required? place name decode? = some result := by
  have hget : record.get? place name = some value := h place _ _ hfield hvalue
  rw [Record.required?, hget, Option.bind_some, hdecode]

theorem optional? (place : Nat) {name : Text} {shape : Shape} {value : Option α}
    {encode : α → Json} (hfield : type.fields[place]? = some (.optional name shape))
    (hvalue : values[place]? = some (value.map encode)) (hnull : ∀ a, encode a ≠ .null)
    (hdecode : ∀ a, decode? (encode a) = some a) :
    record.optional? place name decode? = some value := by
  have hget : record.get? place name = value.map encode := h place _ _ hfield hvalue
  cases value with
  | none => exact optional?_of_absent hget decode?
  | some value =>
    rw [optional?_of_present hget (hnull value), hdecode]
    rfl

theorem defaulted? (place : Nat) {name : Text} {item : Shape} {value : Json} {result : List α}
    {decode? : Json → Option (List α)}
    (hfield : type.fields[place]? = some (.defaulted name item))
    (hvalue : values[place]? = some (some value)) (hdecode : decode? value = some result) :
    record.defaulted? place name decode? = some result := by
  have hget : record.get? place name = some value := h place _ _ hfield hvalue
  rw [Record.defaulted?, hget]
  exact hdecode

theorem text (place : Nat) {name : Text} {shape : Shape} {value : Text}
    (hfield : type.fields[place]? = some (.required name shape))
    (hvalue : values[place]? = some (some (.str value))) :
    record.required? place name text? = some value :=
  h.required? place hfield hvalue rfl

theorem bool (place : Nat) {name : Text} {shape : Shape} {value : Bool}
    (hfield : type.fields[place]? = some (.required name shape))
    (hvalue : values[place]? = some (some (.bool value))) :
    record.required? place name bool? = some value :=
  h.required? place hfield hvalue rfl

theorem optionalText (place : Nat) {name : Text} {shape : Shape} {value : Option Text}
    (hfield : type.fields[place]? = some (.optional name shape))
    (hvalue : values[place]? = some (value.map .str)) :
    record.optional? place name text? = some value :=
  h.optional? place hfield hvalue (fun _ => nofun) fun _ => rfl

end Record.Holds

end Json

open Json (Record)

namespace RecordType

variable (type : RecordType) {α : Type} {decode? : Record → Option α} {result : Option α}

private theorem holds_present {fields : List (Text × Option Json)}
    (hnames : fields.map Prod.fst = type.names) :
    (Record.named (Json.present fields)).Holds type (fields.map Prod.snd) := by
  intro place field value hfield hvalue
  have hdistinct : (fields.map Prod.fst).Nodup := hnames ▸ type.names_nodup
  have hname : (fields.map Prod.fst)[place]? = some field.name := by
    rw [hnames, names, List.getElem?_map, hfield]
    rfl
  rw [List.getElem?_map, Option.map_eq_some_iff] at hname hvalue
  obtain ⟨⟨name, held⟩, hheld, rfl⟩ := hvalue
  obtain ⟨_, hsame, hname⟩ := hname
  obtain rfl := Option.some.inj (hheld.symm.trans hsame)
  rw [← hname]
  exact Json.lookup?_present hdistinct (List.mem_of_getElem? hheld)

/-- A decoder reads an object whose fields without a value are left out. -/
theorem read_ofFields {fields : List (Text × Option Json)}
    (hnames : fields.map Prod.fst = type.names)
    (h : ∀ record, record.Holds type (fields.map Prod.snd) → decode? record = result) :
    ((Json.ofFields fields).record? type.fields.length).bind decode? = result :=
  h _ (type.holds_present hnames)

/-- A decoder reads an object of all fields. -/
theorem read_obj {fields : List (Text × Json)} (hnames : fields.map Prod.fst = type.names)
    (h : ∀ record, record.Holds type (fields.map fun field => some field.2) →
      decode? record = result) :
    ((Json.obj fields).record? type.fields.length).bind decode? = result := by
  have hnames' : (fields.map fun field => (field.1, some field.2)).map Prod.fst = type.names := by
    simpa [Function.comp_def] using hnames
  have hholds := type.holds_present hnames'
  rw [Json.present_map_some, List.map_map] at hholds
  exact h _ hholds

end RecordType

/-! ## §2 Scalars and lists -/

theorem Json.text?_str (value : Text) : (Json.str value).text? = some value := rfl

private theorem Json.word32?_nat (word : UInt32) : (Json.nat word.toNat).word32? = some word := by
  have hlt : (word.toNat : Int) < (UInt32.size : Nat) := Int.ofNat_lt.mpr word.toNat_lt
  rw [word32?, nat, natBelow?, if_pos ⟨Int.natCast_nonneg _, hlt⟩]
  simp

theorem Json.list?_map {α β : Type} {encode : α → Json} {decode? : Json → Option β}
    {result : α → β} (h : ∀ a, decode? (encode a) = some (result a)) (values : List α) :
    (Json.arr (values.map encode)).list? decode? = some (values.map result) := by
  rw [list?]
  induction values with
  | nil => rfl
  | cons value values ih =>
    rw [List.map_cons, List.mapM_cons, h, ih]
    rfl

private theorem Json.list?_encoded {α : Type} {encode : α → Json} {decode? : Json → Option α}
    (h : ∀ a, decode? (encode a) = some a) (values : List α) :
    (Json.arr (values.map encode)).list? decode? = some values := by
  rw [Json.list?_map h, List.map_id']

theorem DeclarationKind.ofJson?_toJson (kind : DeclarationKind) :
    ofJson? kind.toJson = some kind := by
  cases kind <;> rfl

theorem MethodKind.ofJson?_toJson (kind : MethodKind) : ofJson? kind.toJson = some kind := by
  cases kind <;> rfl

theorem Visibility.ofJson?_toJson (visibility : Visibility) :
    ofJson? visibility.toJson = some visibility := by
  cases visibility <;> rfl

theorem ModelSource.ofJson?_toJson (source : ModelSource) :
    ofJson? source.toJson = some source := by
  cases source <;> rfl

/-! ## §3 Tags and members -/

theorem ParamTag.ofJson?_toJson (tag : ParamTag) : ofJson? tag.toJson = some tag := by
  rw [ofJson?, toJson]
  refine RecordType.paramTag.read_obj rfl fun record h => ?_
  rw [h.text 0 rfl rfl, h.text 1 rfl rfl, h.text 2 rfl rfl]
  rfl

theorem ReturnTag.ofJson?_toJson (tag : ReturnTag) : ofJson? tag.toJson = some tag := by
  rw [ofJson?, toJson]
  refine RecordType.returnTag.read_obj rfl fun record h => ?_
  rw [h.text 0 rfl rfl, h.text 1 rfl rfl]
  rfl

theorem ThrowsTag.ofJson?_toJson (tag : ThrowsTag) : ofJson? tag.toJson = some tag := by
  rw [ofJson?, toJson]
  refine RecordType.throwsTag.read_obj rfl fun record h => ?_
  rw [h.text 0 rfl rfl, h.text 1 rfl rfl]
  rfl

theorem TagTable.ofJson?_toJson (table : TagTable) : ofJson? table.toJson = some table := by
  rw [ofJson?, toJson]
  refine RecordType.tagTable.read_ofFields rfl fun record h => ?_
  rw [h.required? 0 rfl rfl (Json.list?_encoded ParamTag.ofJson?_toJson table.params),
    h.optional? 1 rfl rfl (fun _ => nofun) ReturnTag.ofJson?_toJson,
    h.required? 2 rfl rfl (Json.list?_encoded ThrowsTag.ofJson?_toJson table.throws),
    h.optionalText 3 rfl rfl, h.optionalText 4 rfl rfl, h.optionalText 5 rfl rfl,
    h.optionalText 6 rfl rfl, h.optionalText 7 rfl rfl,
    h.required? 8 rfl rfl (Json.list?_encoded Json.text?_str table.see)]
  rfl

theorem Parameter.ofJson?_toJson (parameter : Parameter) :
    ofJson? parameter.toJson = some parameter := by
  rw [ofJson?, toJson]
  refine RecordType.parameter.read_obj rfl fun record h => ?_
  rw [h.text 0 rfl rfl, h.text 1 rfl rfl]
  rfl

theorem MethodDoc.ofJson?_toJson (method : MethodDoc) : ofJson? method.toJson = some method := by
  rw [ofJson?, toJson]
  refine RecordType.method.read_ofFields rfl fun record h => ?_
  rw [h.text 0 rfl rfl, h.required? 1 rfl rfl (MethodKind.ofJson?_toJson method.kind),
    h.text 2 rfl rfl, h.text 3 rfl rfl, h.text 4 rfl rfl,
    h.required? 5 rfl rfl (Json.list?_encoded Parameter.ofJson?_toJson method.parameters),
    h.optionalText 6 rfl rfl, h.required? 7 rfl rfl (Json.word32?_nat method.startLine),
    h.required? 8 rfl rfl (Json.word32?_nat method.endLine), h.bool 9 rfl rfl,
    h.text 10 rfl rfl, h.required? 11 rfl rfl (TagTable.ofJson?_toJson method.tags),
    h.text 12 rfl rfl, h.required? 13 rfl rfl (Visibility.ofJson?_toJson method.visibility)]
  rfl

theorem FieldDoc.ofJson?_toJson (field : FieldDoc) : ofJson? field.toJson = some field := by
  rw [ofJson?, toJson]
  refine RecordType.field.read_obj rfl fun record h => ?_
  rw [h.text 0 rfl rfl, h.text 1 rfl rfl, h.text 2 rfl rfl,
    h.required? 3 rfl rfl (Json.word32?_nat field.startLine), h.bool 4 rfl rfl,
    h.text 5 rfl rfl, h.bool 6 rfl rfl,
    h.required? 7 rfl rfl (Visibility.ofJson?_toJson field.visibility), h.text 8 rfl rfl]
  rfl

theorem EnumConstantDoc.ofJson?_toJson (constant : EnumConstantDoc) :
    ofJson? constant.toJson = some constant := by
  rw [ofJson?, toJson]
  refine RecordType.enumConstant.read_obj rfl fun record h => ?_
  rw [h.text 0 rfl rfl, h.required? 1 rfl rfl (Json.word32?_nat constant.startLine),
    h.bool 2 rfl rfl, h.text 3 rfl rfl, h.text 4 rfl rfl, h.text 5 rfl rfl]
  rfl

theorem Authorship.ofJson?_toJson (authorship : Authorship) :
    ofJson? authorship.toJson = some authorship := by
  rw [ofJson?, toJson]
  refine RecordType.authorship.read_obj rfl fun record h => ?_
  rw [h.text 0 rfl rfl, h.text 1 rfl rfl, h.text 2 rfl rfl]
  rfl

theorem DocumentModel.ofJson?_toJson (model : DocumentModel) :
    ofJson? model.toJson = some model := by
  rw [ofJson?, toJson]
  refine RecordType.model.read_ofFields rfl fun record h => ?_
  rw [h.text 0 rfl rfl, h.text 1 rfl rfl, h.bool 2 rfl rfl, h.text 3 rfl rfl,
    h.optionalText 4 rfl rfl, h.optional? 5 rfl rfl (fun _ => nofun) Json.word32?_nat,
    h.required? 6 rfl rfl (Json.list?_encoded MethodDoc.ofJson?_toJson model.methods),
    h.required? 7 rfl rfl (Json.list?_encoded FieldDoc.ofJson?_toJson model.fields),
    h.required? 8 rfl rfl (Json.list?_encoded EnumConstantDoc.ofJson?_toJson model.enumConstants),
    h.optional? 9 rfl rfl (fun _ => nofun) Authorship.ofJson?_toJson,
    h.optionalText 10 rfl rfl, h.optionalText 11 rfl rfl,
    h.required? 12 rfl rfl (ModelSource.ofJson?_toJson model.source)]
  rfl

/-! ## §4 Symbols -/

theorem Position.ofJson?_toJson (position : Position) :
    ofJson? position.toJson = some position := by
  rw [ofJson?, toJson]
  refine RecordType.position.read_obj rfl fun record h => ?_
  rw [h.required? 0 rfl rfl (Json.word32?_nat position.line),
    h.required? 1 rfl rfl (Json.word32?_nat position.character)]
  rfl

theorem Range.ofJson?_toJson (range : Range) : ofJson? range.toJson = some range := by
  rw [ofJson?, toJson]
  refine RecordType.range.read_obj rfl fun record h => ?_
  rw [h.required? 0 rfl rfl (Position.ofJson?_toJson range.start),
    h.required? 1 rfl rfl (Position.ofJson?_toJson range.stop)]
  rfl

namespace DeclarationSymbol

mutual

theorem ofJson?_toJson : (symbol : DeclarationSymbol) → ofJson? symbol.toJson = some symbol
  | ⟨name, kind, detail, range, selectionRange, children, containerName⟩ => by
    rw [ofJson?, toJson, Json.tree?_eq]
    refine RecordType.symbol.read_ofFields rfl fun record h => ?_
    rw [h.defaulted? 5 rfl rfl (list?_listToJson children), Option.bind_some, ofRecord?,
      h.text 0 rfl rfl, h.required? 1 rfl rfl (DeclarationKind.ofJson?_toJson kind),
      h.optionalText 2 rfl rfl, h.required? 3 rfl rfl (Range.ofJson?_toJson range),
      h.required? 4 rfl rfl (Range.ofJson?_toJson selectionRange), h.optionalText 6 rfl rfl]
    rfl

theorem list?_listToJson : (symbols : List DeclarationSymbol) →
    (Json.arr (listToJson symbols)).list? (Json.tree? 7 5 ofRecord?) = some symbols
  | [] => rfl
  | symbol :: symbols => by
    have hsymbol : symbol.toJson.tree? 7 5 ofRecord? = some symbol := ofJson?_toJson symbol
    have hsymbols : (listToJson symbols).mapM (Json.tree? 7 5 ofRecord?) = some symbols :=
      list?_listToJson symbols
    rw [listToJson, Json.list?, List.mapM_cons, hsymbol, hsymbols]
    rfl

end

end DeclarationSymbol

/-! ## §5 Round trips -/

/-- Values are read back from what they are written as, and respelling changes nothing of what is
read. -/
structure RoundTrips {α : Type} (shape : Shape) (toJson : α → Json) (ofJson? : Json → Option α) :
    Prop where
  written : ∀ value, ofJson? (toJson value) = some value
  respelled : ∀ json other, Respelled shape json other → ofJson? json = ofJson? other

/-- **Models, tag tables and symbols are read back** from what they are written as and from all of
its respellings. -/
theorem roundTrips_stored :
    RoundTrips (.record .model) DocumentModel.toJson DocumentModel.ofJson? ∧
      RoundTrips (.record .tagTable) TagTable.toJson TagTable.ofJson? ∧
      RoundTrips (.record .symbol) DeclarationSymbol.toJson DeclarationSymbol.ofJson? :=
  ⟨⟨DocumentModel.ofJson?_toJson, fun _ _ h => h.readsAlike.1⟩,
    ⟨TagTable.ofJson?_toJson, fun _ _ h => h.readsAlike.1⟩,
    ⟨DeclarationSymbol.ofJson?_toJson, fun _ _ h => h.readsAlike.1⟩⟩

/-- A table with one parameter and a version. -/
def versionedTable : TagTable :=
  { params := [⟨"x", "int", "the input"⟩], since := some "1.2" }

/-- The table as an array, with the fields of its parameter in another order and one more. -/
def versionedTableArray : Json :=
  .arr [.arr [.obj [("type", .str "int"), ("name", .str "x"), ("description", .str "the input"),
      ("optional", .bool false)]],
    .null, .arr [], .str "1.2", .null, .null, .null, .null, .arr []]

private theorem respelled_versionedTable :
    Respelled (.record .tagTable) versionedTable.toJson versionedTableArray := by
  have hparam : Respelled (.record .paramTag) (ParamTag.toJson ⟨"x", "int", "the input"⟩)
      (.obj [("type", .str "int"), ("name", .str "x"), ("description", .str "the input"),
        ("optional", .bool false)]) :=
    .trans (.permuted (by decide) (.swap _ _ _)) (.unknown _ _ (by decide))
  have hplaced : Respelled (.record .tagTable) versionedTable.toJson
      (.arr [.arr [ParamTag.toJson ⟨"x", "int", "the input"⟩], .null, .arr [], .str "1.2", .null,
        .null, .null, .null, .arr []]) :=
    .placed (.cons (.inl rfl) (.cons (.inr ⟨rfl, rfl, rfl⟩) (.cons (.inl rfl) (.cons (.inl rfl)
      (.cons (.inr ⟨rfl, rfl, rfl⟩) (.cons (.inr ⟨rfl, rfl, rfl⟩) (.cons (.inr ⟨rfl, rfl, rfl⟩)
      (.cons (.inr ⟨rfl, rfl, rfl⟩) (.cons (.inl rfl) .nil)))))))))
  exact hplaced.trans (@Respelled.place .tagTable [] _ _ _ _ rfl (.item [] [] hparam))

/-- The array is read as the table. -/
theorem ofJson?_versionedTableArray :
    TagTable.ofJson? versionedTableArray = some versionedTable := by
  rw [← roundTrips_stored.2.1.respelled _ _ respelled_versionedTable]
  exact roundTrips_stored.2.1.written versionedTable

end DeclDocs
