import DeclDocs.Proofs.Json.RoundTrip

/-!
# Trees of symbols read from answers

A provider writes a tree of symbols as nested records.  The outline has the same tree, however the
records are spelled; one node that is not a symbol, anywhere in the answer, and there is no outline.

* `WireSymbol`: a symbol as the provider writes it, and what the outline has for it.
* `Json.IsNodeOf`: the nodes of a written tree.
* `Json.isSome_tree?_iff`: a tree is read exactly if each of its nodes is a symbol.
* `normalize_tree`: trees are read as they are or not at all.
-/

namespace DeclDocs

open Json (Record)

/-! ## §1 Symbols of a provider -/

/-- A symbol as a provider writes it in a tree. -/
structure WireSymbol where
  name : Text
  /-- The number of the symbol's kind. -/
  kind : UInt64
  detail : Option Text := none
  range : Range
  selectionRange : Range
  children : List WireSymbol := []

namespace WireSymbol

mutual

/-- The symbol with all of its fields that have a value. -/
def toJson : WireSymbol → Json
  | ⟨name, kind, detail, range, selectionRange, children⟩ =>
    .ofFields [("name", some (.str name)), ("kind", some (.nat kind.toNat)),
      ("detail", detail.map .str), ("range", some range.toJson),
      ("selectionRange", some selectionRange.toJson),
      ("children", some (.arr (listToJson children)))]

/-- Symbols in order. -/
def listToJson : List WireSymbol → List Json
  | [] => []
  | symbol :: symbols => toJson symbol :: listToJson symbols

end

mutual

/-- The symbol of the outline. -/
def declaration : WireSymbol → DeclarationSymbol
  | ⟨name, kind, detail, range, selectionRange, children⟩ =>
    { name, kind := .ofNumber kind.toNat, detail, range, selectionRange
      children := declarations children, containerName := none }

/-- Symbols in order. -/
def declarations : List WireSymbol → List DeclarationSymbol
  | [] => []
  | symbol :: symbols => declaration symbol :: declarations symbols

end

end WireSymbol

theorem Json.word64?_nat (word : UInt64) : (Json.nat word.toNat).word64? = some word.toNat := by
  have hlt : (word.toNat : Int) < (UInt64.size : Nat) := Int.ofNat_lt.mpr word.toNat_lt
  rw [word64?, nat, natBelow?, if_pos ⟨Int.natCast_nonneg _, hlt⟩]
  simp

namespace WireSymbol

mutual

private theorem tree?_toJson : (symbol : WireSymbol) →
    symbol.toJson.tree? 6 5 SymbolResponse.treeSymbol? = some symbol.declaration
  | ⟨name, kind, detail, range, selectionRange, children⟩ => by
    rw [toJson, Json.tree?_eq]
    refine RecordType.treeSymbol.read_ofFields rfl fun record h => ?_
    rw [h.defaulted? 5 rfl rfl (list?_listToJson children), Option.bind_some,
      SymbolResponse.treeSymbol?, h.text 0 rfl rfl, h.required? 1 rfl rfl (Json.word64?_nat kind),
      h.optionalText 2 rfl rfl, h.required? 3 rfl rfl (Range.ofJson?_toJson range),
      h.required? 4 rfl rfl (Range.ofJson?_toJson selectionRange)]
    rfl

theorem list?_listToJson : (symbols : List WireSymbol) →
    (Json.arr (listToJson symbols)).list? (Json.tree? 6 5 SymbolResponse.treeSymbol?) =
      some (declarations symbols)
  | [] => rfl
  | symbol :: symbols => by
    have hsymbols : (listToJson symbols).mapM (Json.tree? 6 5 SymbolResponse.treeSymbol?) =
        some (declarations symbols) := list?_listToJson symbols
    rw [listToJson, Json.list?, List.mapM_cons, tree?_toJson symbol, hsymbols]
    rfl

end

end WireSymbol

/-! ## §2 Values that are symbols -/

namespace Json

/-- The value is a natural number below `size`. -/
def IsWord (size : Nat) (value : Json) : Prop :=
  ∃ n : Nat, n < size ∧ value = .nat n

def IsText (value : Json) : Prop :=
  ∃ text, value = .str text

/-- The record has the field, and its value is as required. -/
def Record.Has (record : Record) (place : Nat) (name : Text) (P : Json → Prop) : Prop :=
  ∃ value, record.get? place name = some value ∧ P value

def IsPosition (value : Json) : Prop :=
  ∃ record, value.record? 2 = some record ∧
    record.Has 0 "line" (IsWord UInt32.size) ∧ record.Has 1 "character" (IsWord UInt32.size)

def IsRange (value : Json) : Prop :=
  ∃ record, value.record? 2 = some record ∧
    record.Has 0 "start" IsPosition ∧ record.Has 1 "end" IsPosition

/-- The fields that every symbol must have are there, and each field is of the right type. -/
def Record.IsSymbol (record : Record) : Prop :=
  record.Has 0 "name" IsText ∧ record.Has 1 "kind" (IsWord UInt64.size) ∧
    (∀ detail, record.get? 2 "detail" = some detail → detail = .null ∨ detail.IsText) ∧
    record.Has 3 "range" IsRange ∧ record.Has 4 "selectionRange" IsRange ∧
    ∀ children, record.get? 5 "children" = some children → ∃ items, children = .arr items

/-- The value is a symbol, whatever its children are. -/
def IsSymbol (value : Json) : Prop :=
  ∃ record, value.record? 6 = some record ∧ record.IsSymbol

/-- The child is written among the children of the parent. -/
def IsChildOf (child parent : Json) : Prop :=
  ∃ record items, parent.record? 6 = some record ∧
    record.get? 5 "children" = some (.arr items) ∧ child ∈ items

/-- The nodes of a written tree. -/
inductive IsNodeOf : Json → Json → Prop where
  | root (tree : Json) : IsNodeOf tree tree
  | inner {tree child node : Json} (member : child.IsChildOf tree)
      (inside : IsNodeOf node child) : IsNodeOf node tree

/-! ## §3 Which values are read -/

/-- Reading one thing after another: the second does not depend on what the first gives. -/
theorem isSome_bind_iff {α β : Type} {first : Option α} {next : α → Option β} {p q : Prop}
    (hfirst : first.isSome ↔ p) (hnext : ∀ a, (next a).isSome ↔ q) :
    (first.bind next).isSome ↔ p ∧ q := by
  rw [← hfirst]
  cases first with
  | none => simp
  | some a => simp [hnext]

/-- Reading the last thing. -/
theorem isSome_bind_some_iff {α β : Type} {last : Option α} {result : α → β} {p : Prop}
    (hlast : last.isSome ↔ p) : (last.bind fun a => some (result a)).isSome ↔ p := by
  rw [← hlast]
  cases last <;> simp

theorem isSome_text?_iff (value : Json) : value.text?.isSome ↔ value.IsText := by
  cases value <;> simp [text?, IsText]

theorem isSome_natBelow?_iff (size : Nat) (value : Json) :
    (value.natBelow? size).isSome ↔ value.IsWord size := by
  cases value with
  | int n =>
    rw [natBelow?]
    split
    case isTrue h =>
      refine ⟨fun _ => ⟨n.toNat, by omega, ?_⟩, fun _ => rfl⟩
      rw [nat, Int.toNat_of_nonneg h.1]
    case isFalse h =>
      constructor
      · intro hsome
        cases hsome
      · rintro ⟨m, hlt, heq⟩
        obtain rfl : n = m := Json.int.inj heq
        exact absurd ⟨Int.natCast_nonneg m, Int.ofNat_lt.mpr hlt⟩ h
  | _ => simp [natBelow?, IsWord, nat]

theorem isSome_word32?_iff (value : Json) : value.word32?.isSome ↔ value.IsWord UInt32.size := by
  rw [word32?, Option.isSome_map]
  exact isSome_natBelow?_iff UInt32.size value

theorem isSome_word64?_iff (value : Json) : value.word64?.isSome ↔ value.IsWord UInt64.size :=
  isSome_natBelow?_iff UInt64.size value

theorem isSome_record?_bind_iff {α : Type} {size : Nat} {decode? : Record → Option α}
    {P : Record → Prop} (h : ∀ record, (decode? record).isSome ↔ P record) (value : Json) :
    ((value.record? size).bind decode?).isSome ↔
      ∃ record, value.record? size = some record ∧ P record := by
  cases value.record? size with
  | none => simp
  | some record => simp [h]

namespace Record

variable {α : Type} {decode? : Json → Option α} {P : Json → Prop}

theorem isSome_required?_iff (h : ∀ value, (decode? value).isSome ↔ P value) (record : Record)
    (place : Nat) (name : Text) :
    (record.required? place name decode?).isSome ↔ record.Has place name P := by
  rw [required?, Has]
  cases record.get? place name with
  | none => simp
  | some value => simp [h]

theorem isSome_optional?_iff (h : ∀ value, (decode? value).isSome ↔ P value) (record : Record)
    (place : Nat) (name : Text) :
    (record.optional? place name decode?).isSome ↔
      ∀ value, record.get? place name = some value → value = .null ∨ P value := by
  cases hget : record.get? place name with
  | none => simp [optional?_of_absent hget]
  | some value =>
    by_cases hnull : value = .null
    · rw [hnull] at hget
      simp [optional?_of_null hget, hnull]
    · simp [optional?_of_present hget hnull, h, hnull]

end Record

theorem isSome_position?_iff (value : Json) :
    (Position.ofJson? value).isSome ↔ value.IsPosition := by
  refine isSome_record?_bind_iff (fun record => ?_) value
  refine isSome_bind_iff (record.isSome_required?_iff isSome_word32?_iff 0 _) fun line => ?_
  exact isSome_bind_some_iff (record.isSome_required?_iff isSome_word32?_iff 1 _)

theorem isSome_range?_iff (value : Json) : (Range.ofJson? value).isSome ↔ value.IsRange := by
  refine isSome_record?_bind_iff (fun record => ?_) value
  refine isSome_bind_iff (record.isSome_required?_iff isSome_position?_iff 0 _) fun start => ?_
  exact isSome_bind_some_iff (record.isSome_required?_iff isSome_position?_iff 1 _)

theorem isSome_treeSymbol?_iff (record : Record) (children : List DeclarationSymbol) :
    (SymbolResponse.treeSymbol? record children).isSome ↔
      record.Has 0 "name" IsText ∧ record.Has 1 "kind" (IsWord UInt64.size) ∧
      (∀ detail, record.get? 2 "detail" = some detail → detail = .null ∨ detail.IsText) ∧
      record.Has 3 "range" IsRange ∧ record.Has 4 "selectionRange" IsRange := by
  refine isSome_bind_iff (record.isSome_required?_iff isSome_text?_iff 0 _) fun name => ?_
  refine isSome_bind_iff (record.isSome_required?_iff isSome_word64?_iff 1 _) fun kind => ?_
  refine isSome_bind_iff (record.isSome_optional?_iff isSome_text?_iff 2 _) fun detail => ?_
  refine isSome_bind_iff (record.isSome_required?_iff isSome_range?_iff 3 _) fun range => ?_
  exact isSome_bind_some_iff (record.isSome_required?_iff isSome_range?_iff 4 _)

/-! ## §4 Trees that are read -/

theorem isSome_mapM_iff {α : Type} (decode? : Json → Option α) (items : List Json) :
    (items.mapM decode?).isSome ↔ ∀ item ∈ items, (decode? item).isSome := by
  induction items with
  | nil => simp
  | cons item items ih =>
    rw [List.mapM_cons, List.forall_mem_cons, ← ih]
    exact isSome_bind_iff Iff.rfl fun a => isSome_bind_some_iff Iff.rfl

theorem isSome_children?_iff {α : Type} (decode? : Json → Option α) (record : Record) :
    (record.defaulted? 5 "children" (list? decode?)).isSome ↔
      ∀ children, record.get? 5 "children" = some children →
        ∃ items, children = .arr items ∧ ∀ child ∈ items, (decode? child).isSome := by
  rw [Record.defaulted?]
  cases record.get? 5 "children" with
  | none => simp
  | some children =>
    cases children with
    | arr items => simpa [list?] using isSome_mapM_iff decode? items
    | _ => simp [list?]

/-- One level of a tree. -/
theorem isSome_tree?_step (tree : Json) :
    (tree.tree? 6 5 SymbolResponse.treeSymbol?).isSome ↔
      tree.IsSymbol ∧ ∀ child : Json, child.IsChildOf tree →
        (child.tree? 6 5 SymbolResponse.treeSymbol?).isSome := by
  rw [tree?_eq, IsSymbol]
  simp only [IsChildOf]
  cases tree.record? 6 with
  | none =>
    -- neither side holds of a value that is no record
    constructor
    · intro h
      cases h
    · rintro ⟨⟨record, hrecord, -⟩, -⟩
      cases hrecord
  | some record =>
    rw [Option.bind_some, isSome_bind_iff (isSome_children?_iff _ record)
      (isSome_treeSymbol?_iff record)]
    simp only [Option.some.injEq, exists_eq_left', Record.IsSymbol]
    grind

private theorem sizeOf_lt_of_get? {tree value : Json} {record : Record} {size place : Nat}
    {name : Text} (hrecord : tree.record? size = some record)
    (hvalue : record.get? place name = some value) :
    sizeOf value < sizeOf tree := by
  cases tree with
  | obj fields =>
    cases hrecord
    have hmem := List.sizeOf_lt_of_mem (mem_of_lookup? hvalue)
    simp only [Prod.mk.sizeOf_spec] at hmem
    rw [obj.sizeOf_spec]
    omega
  | arr items =>
    rw [record?] at hrecord
    split at hrecord
    case isTrue =>
      cases hrecord
      have hmem := List.sizeOf_lt_of_mem (List.mem_of_getElem? hvalue)
      rw [arr.sizeOf_spec]
      omega
    case isFalse => cases hrecord
  | _ => cases hrecord

private theorem IsChildOf.sizeOf_lt {child tree : Json} (h : child.IsChildOf tree) :
    sizeOf child < sizeOf tree := by
  obtain ⟨record, items, hrecord, hchildren, hmem⟩ := h
  have hitems : sizeOf (arr items) < sizeOf tree := sizeOf_lt_of_get? hrecord hchildren
  have hchild := List.sizeOf_lt_of_mem hmem
  rw [arr.sizeOf_spec] at hitems
  omega

/-- **A tree is read exactly if each of its nodes is a symbol.** -/
theorem isSome_tree?_iff (tree : Json) :
    (tree.tree? 6 5 SymbolResponse.treeSymbol?).isSome ↔
      ∀ node : Json, node.IsNodeOf tree → node.IsSymbol := by
  rw [isSome_tree?_step]
  constructor
  · rintro ⟨htree, hchildren⟩ node hnode
    cases hnode with
    | root => exact htree
    | inner member inside =>
      have hsmaller := member.sizeOf_lt
      exact (isSome_tree?_iff _).mp (hchildren _ member) node inside
  · intro h
    refine ⟨h tree (.root tree), fun child hchild => ?_⟩
    have hsmaller := hchild.sizeOf_lt
    exact (isSome_tree?_iff child).mpr fun node hnode => h node (.inner hchild hnode)
termination_by sizeOf tree

end Json

/-! ## §5 Trees or nothing -/

theorem normalize_of_tree {first : Json} (others : List Json)
    (h : (first.field? "selectionRange").isSome) :
    normalize (.arr (first :: others)) =
      ((Json.arr (first :: others)).list? (Json.tree? 6 5 SymbolResponse.treeSymbol?)).getD [] := by
  rw [normalize, SymbolResponse.ofJson, if_pos h, Json.trees?_eq, Json.list?]
  cases (first :: others).mapM (Json.tree? 6 5 SymbolResponse.treeSymbol?) <;> rfl

/-- A list that is read has as many items as were written. -/
theorem getD_list?_eq_nil_iff {α : Type} (decode? : Json → Option α) (first : Json)
    (others : List Json) :
    ((Json.arr (first :: others)).list? decode?).getD [] = [] ↔
      ((Json.arr (first :: others)).list? decode?).isSome = false := by
  rw [Json.list?, List.mapM_cons]
  cases decode? first with
  | none => simp
  | some a => cases others.mapM decode? <;> simp

/-- A symbol that is read from an object has a selection. -/
theorem isSome_selectionRange {fields : List (Text × Json)}
    (h : ((Json.obj fields).tree? 6 5 SymbolResponse.treeSymbol?).isSome) :
    ((Json.obj fields).field? "selectionRange").isSome := by
  obtain ⟨record, hrecord, -, -, -, -, ⟨value, hvalue, -⟩, -⟩ :=
    (Json.isSome_tree?_step _).mp h |>.1
  cases hrecord
  exact Option.isSome_of_eq_some hvalue

/-- A tree that a provider wrote, in any spelling of its records. -/
theorem normalize_respelled {forest : List WireSymbol} {fields : List (Text × Json)}
    {others : List Json}
    (hspelled : Respelled (.list (.record .treeSymbol)) (.arr (WireSymbol.listToJson forest))
      (.arr (.obj fields :: others))) :
    normalize (.arr (.obj fields :: others)) = WireSymbol.declarations forest := by
  have hread : (Json.arr (.obj fields :: others)).list?
      (Json.tree? 6 5 SymbolResponse.treeSymbol?) = some (WireSymbol.declarations forest) := by
    rw [← WireSymbol.list?_listToJson forest]
    exact (hspelled.readsAlike.1 _ _ fun _ _ h => h).symm
  have hall := (Json.isSome_mapM_iff _ _).mp (Option.isSome_of_eq_some hread)
  have hselection := isSome_selectionRange (hall _ (List.mem_cons_self ..))
  rw [normalize_of_tree others hselection, hread]
  rfl

/-- **Trees are read as they are or not at all.** The outline is the tree that the provider wrote,
in every spelling of its records; and there is none exactly if some node, at whatever depth, is not
a symbol. -/
theorem normalize_tree :
    (∀ (forest : List WireSymbol) (fields : List (Text × Json)) (others : List Json),
      Respelled (.list (.record .treeSymbol)) (.arr (WireSymbol.listToJson forest))
        (.arr (.obj fields :: others)) →
      normalize (.arr (.obj fields :: others)) = WireSymbol.declarations forest) ∧
    (∀ (first : Json) (others : List Json), (first.field? "selectionRange").isSome →
      (normalize (.arr (first :: others)) = [] ↔
        ∃ tree ∈ first :: others, ∃ node : Json, node.IsNodeOf tree ∧ ¬ node.IsSymbol)) := by
  refine ⟨fun forest fields others => normalize_respelled, fun first others hfirst => ?_⟩
  rw [normalize_of_tree others hfirst, getD_list?_eq_nil_iff, ← Bool.not_eq_true, Json.list?,
    Json.isSome_mapM_iff]
  simp only [Json.isSome_tree?_iff, not_forall, exists_prop]

/-- A class with one method. -/
def queueForest : List WireSymbol :=
  [{ name := "Queue", kind := 5, range := .ofLines 0 9, selectionRange := .ofLines 0 0,
     children := [{ name := "push", kind := 6, range := .ofLines 2 4,
                    selectionRange := .ofLines 2 2 }] }]

/-- The class with the given method, its absent detail written as `null`. -/
def queueFields (method : Json) : List (Text × Json) :=
  [("name", .str "Queue"), ("kind", .nat 5), ("range", (Range.ofLines 0 9).toJson),
    ("selectionRange", (Range.ofLines 0 0).toJson), ("children", .arr [method]), ("detail", .null)]

/-- The method without children, and with a field that symbols do not have. -/
def pushFields : List (Text × Json) :=
  [("name", .str "push"), ("kind", .nat 6), ("range", (Range.ofLines 2 4).toJson),
    ("selectionRange", (Range.ofLines 2 2).toJson), ("deprecated", .bool true)]

/-- The method without its range. -/
def unplacedFields : List (Text × Json) :=
  [("name", .str "push"), ("kind", .nat 6), ("selectionRange", (Range.ofLines 2 2).toJson)]

private theorem respelled_queueForest :
    Respelled (.list (.record .treeSymbol)) (.arr (WireSymbol.listToJson queueForest))
      (.arr [.obj (queueFields (.obj pushFields))]) := by
  have hempty : Respelled (.record .treeSymbol) (.obj (pushFields.take 4))
      (WireSymbol.toJson ⟨"push", 6, none, .ofLines 2 4, .ofLines 2 2, []⟩) :=
    @Respelled.empty .treeSymbol _ (.defaulted "children" (.record .treeSymbol)) (by decide) rfl
      (by decide)
  have hmethod : Respelled (.record .treeSymbol)
      (WireSymbol.toJson ⟨"push", 6, none, .ofLines 2 4, .ofLines 2 2, []⟩) (.obj pushFields) :=
    hempty.symm.trans (.unknown _ _ (by decide))
  have hnull : Respelled (.record .treeSymbol)
      (.obj ((queueFields (.obj pushFields)).take 5)) (.obj (queueFields (.obj pushFields))) :=
    @Respelled.null .treeSymbol _ (.optional "detail" .scalar) (by decide) rfl (by decide)
  have hchildren : Respelled (.record .treeSymbol)
      (.obj ((queueFields
        (WireSymbol.toJson ⟨"push", 6, none, .ofLines 2 4, .ofLines 2 2, []⟩)).take 5))
      (.obj ((queueFields (.obj pushFields)).take 5)) :=
    @Respelled.field .treeSymbol ((queueFields .null).take 4) []
      (.defaulted "children" (.record .treeSymbol)) _ _ (by decide) (.item [] [] hmethod)
  exact .item [] [] (hchildren.trans hnull)

private theorem not_isSymbol_unplaced : ¬ (Json.obj unplacedFields).IsSymbol := by
  rintro ⟨record, hrecord, -, -, -, ⟨range, hrange, -⟩, -⟩
  cases hrecord
  cases hrange

/-- The class is read with its method; it is not read when the method has no range. -/
theorem normalize_queue :
    normalize (.arr [.obj (queueFields (.obj pushFields))]) =
        WireSymbol.declarations queueForest ∧
      normalize (.arr [.obj (queueFields (.obj unplacedFields))]) = [] := by
  refine ⟨normalize_tree.1 queueForest _ [] respelled_queueForest, ?_⟩
  apply (normalize_tree.2 (.obj (queueFields (.obj unplacedFields))) [] rfl).mpr
  refine ⟨_, List.mem_cons_self .., .obj unplacedFields, ?_, not_isSymbol_unplaced⟩
  exact .inner ⟨_, _, rfl, rfl, List.mem_cons_self ..⟩ (.root _)

end DeclDocs
