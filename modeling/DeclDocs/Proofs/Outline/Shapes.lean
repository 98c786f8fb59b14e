import DeclDocs.Model.Build
import DeclDocs.Proofs.Outline.Answers

/-!
# Flat lists and trees give the same model

A flat list of symbols has containers for its declarations and no selections, a tree has details and
selections.  The model of a document is built from none of these: of a symbol it takes the name, the
kind, the range and the place where the selection begins.

* `DeclarationSymbol.plain`: a symbol with only what the model is built from.
* `buildModel_plainAll`: the rest does not matter.
* `buildModel_shapes`: declarations without children give one model in both shapes.
-/

namespace DeclDocs

open Json (Record)

/-! ## §1 What a model is built from -/

mutual

/-- The symbol without detail and reported container, its selection reduced to a place. -/
def DeclarationSymbol.plain : DeclarationSymbol → DeclarationSymbol
  | ⟨name, kind, _, range, selectionRange, children, _⟩ =>
    ⟨name, kind, none, range, ⟨selectionRange.start, selectionRange.start⟩, plainAll children, none⟩

/-- Symbols in order. -/
def plainAll : List DeclarationSymbol → List DeclarationSymbol
  | [] => []
  | symbol :: symbols => symbol.plain :: plainAll symbols

end

/-- The leaf with a plain symbol. -/
def Leaf.plain (leaf : Leaf) : Leaf := ⟨leaf.symbol.plain, leaf.owner⟩

private theorem plainAll_eq_map (symbols : List DeclarationSymbol) :
    plainAll symbols = symbols.map DeclarationSymbol.plain := by
  induction symbols with
  | nil => rfl
  | cons symbol symbols ih => rw [plainAll, ih, List.map_cons]

namespace DeclarationSymbol

variable (symbol : DeclarationSymbol)

@[simp] theorem kind_plain : symbol.plain.kind = symbol.kind := by
  cases symbol
  rfl

@[simp] theorem bareName_plain : symbol.plain.bareName = symbol.bareName := by
  cases symbol
  rfl

@[simp] theorem startLine_plain : symbol.plain.startLine = symbol.startLine := by
  cases symbol
  rfl

end DeclarationSymbol

theorem Leaf.kind_plain (leaf : Leaf) : leaf.plain.symbol.kind = leaf.symbol.kind :=
  leaf.symbol.kind_plain

mutual

private theorem DeclarationSymbol.leavesIn_plain (owner : Text) :
    ∀ symbol : DeclarationSymbol, symbol.plain.leavesIn owner =
      (symbol.leavesIn owner).map Leaf.plain
  | ⟨name, kind, detail, range, selectionRange, children, containerName⟩ => by
    rw [DeclarationSymbol.plain, DeclarationSymbol.leavesIn, DeclarationSymbol.leavesIn]
    split
    · -- the path to the children is made of names
      exact leavesInAll_plainAll _ children
    · split <;> rfl

private theorem leavesInAll_plainAll (owner : Text) :
    ∀ symbols : List DeclarationSymbol, leavesInAll owner (plainAll symbols) =
      (leavesInAll owner symbols).map Leaf.plain
  | [] => rfl
  | symbol :: symbols => by
    rw [plainAll, leavesInAll, leavesInAll, List.map_append, symbol.leavesIn_plain owner,
      leavesInAll_plainAll owner symbols]

end

private theorem primaryContainer?_plainAll (symbols : List DeclarationSymbol) (baseName : Text)
    (preferBaseName : Bool) :
    primaryContainer? (plainAll symbols) baseName preferBaseName =
      (primaryContainer? symbols baseName preferBaseName).map DeclarationSymbol.plain := by
  rw [primaryContainer?, primaryContainer?, plainAll_eq_map, List.filter_map]
  simp only [Function.comp_def, DeclarationSymbol.kind_plain, List.find?_map,
    DeclarationSymbol.bareName_plain, List.head?_map]
  cases preferBaseName with
  | false => rfl
  | true => exact Option.map_or.symm

private theorem containerModel_plainAll (document : DocumentId) (lines : List Text)
    (symbols : List DeclarationSymbol) (options : ModelOptions) :
    containerModel document lines (plainAll symbols) options =
      containerModel document lines symbols options := by
  rw [containerModel, containerModel, primaryContainer?_plainAll]
  cases primaryContainer? symbols document.baseName options.preferFileNameContainer with
  | none => rfl
  | some container =>
    simp only [Option.map_some, DeclarationSymbol.bareName_plain,
      DeclarationSymbol.startLine_plain]

namespace Extraction

/-- Members that are read alike from leaves and plain leaves. -/
theorem filterMap_plain {β : Type} {read : Leaf → Except ExtractionError β}
    (h : ∀ leaf : Leaf, read leaf.plain = read leaf) (kind : DeclarationKind → Bool)
    (leaves : List Leaf) :
    ((leaves.map Leaf.plain).filter fun leaf => kind leaf.symbol.kind).filterMap
        (fun leaf => (read leaf).toOption) =
      (leaves.filter fun leaf => kind leaf.symbol.kind).filterMap
        fun leaf => (read leaf).toOption := by
  rw [List.filter_map, List.filterMap_map]
  simp only [Function.comp_def, h, Leaf.kind_plain]

variable (extraction : Extraction)

private theorem method_plain (leaf : Leaf) :
    extraction.method leaf.plain = extraction.method leaf := by
  obtain ⟨⟨name, kind, detail, range, selectionRange, children, containerName⟩, owner⟩ := leaf
  rfl

private theorem field_plain (leaf : Leaf) :
    extraction.field leaf.plain = extraction.field leaf := by
  obtain ⟨⟨name, kind, detail, range, selectionRange, children, containerName⟩, owner⟩ := leaf
  rfl

private theorem enumConstant_plain (leaf : Leaf) :
    extraction.enumConstant leaf.plain = extraction.enumConstant leaf := by
  obtain ⟨⟨name, kind, detail, range, selectionRange, children, containerName⟩, owner⟩ := leaf
  rfl

end Extraction

/-- **A model is built from the plain symbols of its outline.** -/
theorem buildModel_plainAll (document : DocumentId) (text : Text)
    (symbols : List DeclarationSymbol) (options : ModelOptions) :
    buildModel document text (plainAll symbols) options =
      buildModel document text symbols options := by
  have hleaves : leaves (plainAll symbols) = (leaves symbols).map Leaf.plain :=
    leavesInAll_plainAll [] symbols
  simp only [buildModel, containerModel_plainAll, hleaves, Extraction.methods, Extraction.fields,
    Extraction.enumConstants, Extraction.filterMap_plain (Extraction.method_plain _),
    Extraction.filterMap_plain (Extraction.field_plain _),
    Extraction.filterMap_plain (Extraction.enumConstant_plain _)]

/-! ## §2 Reports in both shapes -/

/-- What a provider knows of a declaration without children. -/
structure Report where
  name : Text
  kind : UInt64
  range : Range
  /-- The enclosing declaration, which only a flat list has. -/
  containerName : Option Text := none
  /-- The detail, which only a tree has. -/
  detail : Option Text := none
  /-- Where the selection ends, which only a tree has. -/
  selectionStop : Position

namespace Report

/-- The report as a symbol of a tree. -/
def wireSymbol (report : Report) : WireSymbol where
  name := report.name
  kind := report.kind
  detail := report.detail
  range := report.range
  selectionRange := ⟨report.range.start, report.selectionStop⟩

/-- The report in a flat list. -/
def toFlatJson (report : Report) : Json :=
  .ofFields [("name", some (.str report.name)), ("kind", some (.nat report.kind.toNat)),
    ("location", some (.obj [("range", report.range.toJson)])),
    ("containerName", report.containerName.map .str)]

/-- The symbol of the outline for a report in a flat list. -/
def flatDeclaration (report : Report) : DeclarationSymbol where
  name := report.name
  kind := .ofNumber report.kind.toNat
  range := report.range
  selectionRange := ⟨report.range.start, report.range.start⟩
  containerName := report.containerName

private theorem locationRange?_obj (range : Range) :
    SymbolResponse.locationRange? (.obj [("range", range.toJson)]) = some range := by
  rw [SymbolResponse.locationRange?]
  refine RecordType.location.read_obj rfl fun record h => ?_
  exact h.required? 0 rfl rfl (Range.ofJson?_toJson range)

private theorem flatSymbol?_toFlatJson (report : Report) :
    SymbolResponse.flatSymbol? report.toFlatJson = some report.flatDeclaration := by
  rw [SymbolResponse.flatSymbol?, toFlatJson]
  refine RecordType.flatSymbol.read_ofFields rfl fun record h => ?_
  rw [h.text 0 rfl rfl, h.required? 1 rfl rfl (Json.word64?_nat report.kind),
    h.required? 2 rfl rfl (locationRange?_obj report.range), h.optionalText 3 rfl rfl]
  rfl

end Report

/-! ## §3 Flat lists -/

theorem normalize_of_flat {fields : List (Text × Json)} (others : List Json)
    (hselection : Json.lookup? "selectionRange" fields = none)
    (hlocation : (Json.lookup? "location" fields).isSome) :
    normalize (.arr (.obj fields :: others)) =
      ((Json.arr (.obj fields :: others)).list? SymbolResponse.flatSymbol?).getD [] := by
  have htree : ¬ ((Json.obj fields).field? "selectionRange").isSome := by
    rw [Json.field?, hselection]
    exact nofun
  have hflat : ((Json.obj fields).field? "location").isSome := hlocation
  rw [normalize, SymbolResponse.ofJson, if_neg htree, if_pos hflat, Json.list?]
  cases (Json.obj fields :: others).mapM SymbolResponse.flatSymbol? <;> rfl

/-- A symbol that is read from an object of a flat list has a location. -/
theorem isSome_location {fields : List (Text × Json)}
    (h : (SymbolResponse.flatSymbol? (.obj fields)).isSome) :
    (Json.lookup? "location" fields).isSome := by
  obtain ⟨symbol, hsymbol⟩ := Option.isSome_iff_exists.mp h
  simp only [SymbolResponse.flatSymbol?, Option.bind_eq_bind, Option.bind_eq_some_iff] at hsymbol
  obtain ⟨record, hrecord, _, -, _, -, range, hrange, -⟩ := hsymbol
  cases hrecord
  rw [Record.required?, Option.bind_eq_some_iff] at hrange
  obtain ⟨location, hlocation, -⟩ := hrange
  exact Option.isSome_of_eq_some hlocation

private theorem normalize_flat
    {reports : List Report} {fields : List (Text × Json)} {others : List Json}
    (hspelled : Respelled (.list (.record .flatSymbol)) (.arr (reports.map Report.toFlatJson))
      (.arr (.obj fields :: others)))
    (hselection : Json.lookup? "selectionRange" fields = none) :
    normalize (.arr (.obj fields :: others)) = reports.map Report.flatDeclaration := by
  have hread : (Json.arr (.obj fields :: others)).list? SymbolResponse.flatSymbol? =
      some (reports.map Report.flatDeclaration) := by
    rw [← Json.list?_map Report.flatSymbol?_toFlatJson reports]
    exact (hspelled.readsAlike.1 _ _ fun _ _ h => h).symm
  have hall := (Json.isSome_mapM_iff _ _).mp (Option.isSome_of_eq_some hread)
  have hlocation := isSome_location (hall _ (List.mem_cons_self ..))
  rw [normalize_of_flat others hselection hlocation, hread]
  rfl

/-! ## §4 One model for both shapes -/

theorem plainAll_declarations (reports : List Report) :
    plainAll (WireSymbol.declarations (reports.map Report.wireSymbol)) =
      plainAll (reports.map Report.flatDeclaration) := by
  induction reports with
  | nil => rfl
  | cons report reports ih =>
    have hreport : report.wireSymbol.declaration.plain = report.flatDeclaration.plain := rfl
    rw [List.map_cons, WireSymbol.declarations, List.map_cons, plainAll, plainAll, hreport, ih]

/-- **The shape of an answer does not matter.** Declarations without children have the names that
were reported and give the same model, whether the provider writes them as a flat list or as a tree,
and whatever details, containers and ends of selections it reports. -/
theorem buildModel_shapes (reports : List Report) (flatFields treeFields : List (Text × Json))
    (flatOthers treeOthers : List Json)
    (hflat : Respelled (.list (.record .flatSymbol)) (.arr (reports.map Report.toFlatJson))
      (.arr (.obj flatFields :: flatOthers)))
    (hselection : Json.lookup? "selectionRange" flatFields = none)
    (htree : Respelled (.list (.record .treeSymbol))
      (.arr (WireSymbol.listToJson (reports.map Report.wireSymbol)))
      (.arr (.obj treeFields :: treeOthers))) :
    (normalize (.arr (.obj flatFields :: flatOthers))).map DeclarationSymbol.name =
        reports.map Report.name ∧
      ∀ (document : DocumentId) (text : Text) (options : ModelOptions),
        buildModel document text (normalize (.arr (.obj flatFields :: flatOthers))) options =
          buildModel document text (normalize (.arr (.obj treeFields :: treeOthers))) options := by
  rw [normalize_flat hflat hselection, normalize_respelled htree]
  constructor
  · rw [List.map_map]
    rfl
  · intro document text options
    rw [← buildModel_plainAll, ← plainAll_declarations, buildModel_plainAll]

/-- A method and a field of a queue. -/
def queueReports : List Report :=
  [{ name := "push(int)", kind := 6, range := .ofLines 2 4, containerName := some "Queue",
     detail := some "void", selectionStop := ⟨2, 17⟩ },
    { name := "size", kind := 8, range := .ofLines 6 6, containerName := some "Queue",
      selectionStop := ⟨6, 11⟩ }]

theorem buildModel_queueReports :
    (normalize (.arr (queueReports.map Report.toFlatJson))).map DeclarationSymbol.name =
        queueReports.map Report.name ∧
      ∀ (document : DocumentId) (text : Text) (options : ModelOptions),
        buildModel document text (normalize (.arr (queueReports.map Report.toFlatJson))) options =
          buildModel document text
            (normalize (.arr (WireSymbol.listToJson (queueReports.map Report.wireSymbol))))
            options :=
  buildModel_shapes queueReports _ _ _ _ (.refl _ _) rfl (.refl _ _)

end DeclDocs
