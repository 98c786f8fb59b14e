import DeclDocs.Outline.Encode

/-!
# Answers of symbol providers

A provider answers with a tree of symbols (`range`, `selectionRange`, `children`) or with a flat
list (`location`, `containerName`).  The first element decides which of the two is read; an answer
that does not decode as a whole gives no symbols at all.

* `SymbolResponse.ofJson`: an answer by its shape.
* `normalize`: the outline in an answer.
-/

namespace DeclDocs

/-- An answer by its shape. -/
inductive SymbolResponse where
  | tree (symbols : List DeclarationSymbol)
  | flat (symbols : List DeclarationSymbol)
  | unrecognized

namespace SymbolResponse

/-- A symbol of a tree from its record and its decoded children. -/
def treeSymbol? (record : Json.Record) (children : List DeclarationSymbol) :
    Option DeclarationSymbol := do
  let name ← record.required? 0 "name" Json.text?
  let kind ← record.required? 1 "kind" Json.word64?
  let detail ← record.optional? 2 "detail" Json.text?
  let range ← record.required? 3 "range" Range.ofJson?
  let selectionRange ← record.required? 4 "selectionRange" Range.ofJson?
  some { name, kind := .ofNumber kind, detail, range, selectionRange, children }

/-- The range of a symbol's location. -/
def locationRange? (value : Json) : Option Range := do
  let record ← value.record? 1
  record.required? 0 "range" Range.ofJson?

/-- A symbol of a flat list: its name is taken to stand where its range begins. -/
def flatSymbol? (value : Json) : Option DeclarationSymbol := do
  let record ← value.record? 4
  let name ← record.required? 0 "name" Json.text?
  let kind ← record.required? 1 "kind" Json.word64?
  let range ← record.required? 2 "location" locationRange?
  let containerName ← record.optional? 3 "containerName" Json.text?
  some
    { name, kind := .ofNumber kind, range, selectionRange := ⟨range.start, range.start⟩
      containerName }

/-- An answer by its shape. -/
def ofJson (value : Json) : SymbolResponse :=
  match value with
  | .arr [] => tree []
  | .arr (first :: others) =>
    if (first.field? "selectionRange").isSome then
      ((Json.trees? 6 5 treeSymbol? (first :: others)).map tree).getD unrecognized
    else if (first.field? "location").isSome then
      (((first :: others).mapM flatSymbol?).map flat).getD unrecognized
    else unrecognized
  | _ => unrecognized

/-- The name of the shape. -/
def shape : SymbolResponse → Text
  | tree _ => "tree"
  | flat _ => "flat"
  | unrecognized => "unrecognized"

/-- The symbols of the answer. -/
def symbols : SymbolResponse → List DeclarationSymbol
  | tree symbols | flat symbols => symbols
  | unrecognized => []

end SymbolResponse

/-- The outline in a provider's answer. -/
def normalize (answer : Json) : List DeclarationSymbol :=
  (SymbolResponse.ofJson answer).symbols

end DeclDocs
