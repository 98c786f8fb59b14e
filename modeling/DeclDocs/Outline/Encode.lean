import DeclDocs.Json.Decode
import DeclDocs.Outline.Symbol

/-!
# Symbols as JSON

The form in which symbols are exchanged once they have been read from a provider: kinds by name,
absent details left out, children always present.
-/

namespace DeclDocs

namespace Position

def toJson (position : Position) : Json :=
  .obj [("line", .nat position.line.toNat), ("character", .nat position.character.toNat)]

def ofJson? (value : Json) : Option Position := do
  let record ← value.record? 2
  let line ← record.required? 0 "line" Json.word32?
  let character ← record.required? 1 "character" Json.word32?
  some ⟨line, character⟩

end Position

namespace Range

def toJson (range : Range) : Json :=
  .obj [("start", range.start.toJson), ("end", range.stop.toJson)]

def ofJson? (value : Json) : Option Range := do
  let record ← value.record? 2
  let start ← record.required? 0 "start" Position.ofJson?
  let stop ← record.required? 1 "end" Position.ofJson?
  some ⟨start, stop⟩

end Range

namespace DeclarationKind

def toJson (kind : DeclarationKind) : Json := .str kind.name

def ofJson? (value : Json) : Option DeclarationKind :=
  value.choice? all name

end DeclarationKind

namespace DeclarationSymbol

mutual

/-- A symbol with its children. -/
def toJson : DeclarationSymbol → Json
  | ⟨name, kind, detail, range, selectionRange, children, containerName⟩ =>
    .ofFields [("name", some (.str name)), ("kind", some kind.toJson),
      ("detail", detail.map .str), ("range", some range.toJson),
      ("selectionRange", some selectionRange.toJson),
      ("children", some (.arr (listToJson children))),
      ("containerName", containerName.map .str)]

/-- Symbols in order. -/
def listToJson : List DeclarationSymbol → List Json
  | [] => []
  | symbol :: symbols => toJson symbol :: listToJson symbols

end

/-- A symbol from its record and its decoded children. -/
def ofRecord? (record : Json.Record) (children : List DeclarationSymbol) :
    Option DeclarationSymbol := do
  let name ← record.required? 0 "name" Json.text?
  let kind ← record.required? 1 "kind" DeclarationKind.ofJson?
  let detail ← record.optional? 2 "detail" Json.text?
  let range ← record.required? 3 "range" Range.ofJson?
  let selectionRange ← record.required? 4 "selectionRange" Range.ofJson?
  let containerName ← record.optional? 6 "containerName" Json.text?
  some { name, kind, detail, range, selectionRange, children, containerName }

/-- A symbol with its children. -/
def ofJson? (value : Json) : Option DeclarationSymbol :=
  value.tree? 7 5 ofRecord?

/-- Symbols in order. -/
def listOfJson? (value : Json) : Option (List DeclarationSymbol) :=
  value.forest? 7 5 ofRecord?

end DeclarationSymbol

end DeclDocs
