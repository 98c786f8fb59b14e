import DeclDocs.Json.Decode
import DeclDocs.Model.Basic

/-!
# Models as JSON

The form in which models are printed and stored: fields in the order of their declaration, fields
without a value left out.  Decoding takes what encoding gives.
-/

namespace DeclDocs

/-! ## §1 Tags -/

namespace ParamTag

def toJson (tag : ParamTag) : Json :=
  .obj [("name", .str tag.name), ("type", .str tag.typeName), ("description", .str tag.description)]

def ofJson? (value : Json) : Option ParamTag := do
  let record ← value.record? 3
  let name ← record.required? 0 "name" Json.text?
  let typeName ← record.required? 1 "type" Json.text?
  let description ← record.required? 2 "description" Json.text?
  some { name, typeName, description }

end ParamTag

namespace ReturnTag

def toJson (tag : ReturnTag) : Json :=
  .obj [("type", .str tag.typeName), ("description", .str tag.description)]

def ofJson? (value : Json) : Option ReturnTag := do
  let record ← value.record? 2
  let typeName ← record.required? 0 "type" Json.text?
  let description ← record.required? 1 "description" Json.text?
  some { typeName, description }

end ReturnTag

namespace ThrowsTag

def toJson (tag : ThrowsTag) : Json :=
  .obj [("exception", .str tag.exception), ("description", .str tag.description)]

def ofJson? (value : Json) : Option ThrowsTag := do
  let record ← value.record? 2
  let exception ← record.required? 0 "exception" Json.text?
  let description ← record.required? 1 "description" Json.text?
  some { exception, description }

end ThrowsTag

namespace TagTable

def toJson (table : TagTable) : Json :=
  .ofFields [("params", some (.arr (table.params.map ParamTag.toJson))),
    ("returns", table.returns.map ReturnTag.toJson),
    ("throws", some (.arr (table.throws.map ThrowsTag.toJson))),
    ("since", table.since.map .str), ("author", table.author.map .str),
    ("deprecated", table.deprecated.map .str), ("doc", table.doc.map .str),
    ("example", table.sample.map .str), ("see", some (.arr (table.see.map .str)))]

def ofJson? (value : Json) : Option TagTable := do
  let record ← value.record? 9
  let params ← record.required? 0 "params" (Json.list? ParamTag.ofJson?)
  let returns ← record.optional? 1 "returns" ReturnTag.ofJson?
  let throws ← record.required? 2 "throws" (Json.list? ThrowsTag.ofJson?)
  let since ← record.optional? 3 "since" Json.text?
  let author ← record.optional? 4 "author" Json.text?
  let deprecated ← record.optional? 5 "deprecated" Json.text?
  let doc ← record.optional? 6 "doc" Json.text?
  let sample ← record.optional? 7 "example" Json.text?
  let see ← record.required? 8 "see" (Json.list? Json.text?)
  some { params, returns, throws, since, author, deprecated, doc, sample, see }

end TagTable

/-! ## §2 Members -/

namespace Parameter

def toJson (parameter : Parameter) : Json :=
  .obj [("name", .str parameter.name), ("type", .str parameter.typeName)]

def ofJson? (value : Json) : Option Parameter := do
  let record ← value.record? 2
  let name ← record.required? 0 "name" Json.text?
  let typeName ← record.required? 1 "type" Json.text?
  some { name, typeName }

end Parameter

namespace MethodKind

def toJson (kind : MethodKind) : Json := .str kind.name

def ofJson? (value : Json) : Option MethodKind := value.choice? all name

end MethodKind

namespace Visibility

def toJson (visibility : Visibility) : Json := .str visibility.name

def ofJson? (value : Json) : Option Visibility := value.choice? all name

end Visibility

namespace MethodDoc

def toJson (method : MethodDoc) : Json :=
  .ofFields [("id", some (.str method.id)), ("kind", some method.kind.toJson),
    ("name", some (.str method.name)), ("displaySignature", some (.str method.displaySignature)),
    ("signature", some (.str method.signature)),
    ("parameters", some (.arr (method.parameters.map Parameter.toJson))),
    ("returnType", method.returnType.map .str),
    ("startLine", some (.nat method.startLine.toNat)),
    ("endLine", some (.nat method.endLine.toNat)), ("hasComment", some (.bool method.hasComment)),
    ("description", some (.str method.description)), ("tags", some method.tags.toJson),
    ("owner", some (.str method.owner)), ("visibility", some method.visibility.toJson)]

def ofJson? (value : Json) : Option MethodDoc := do
  let record ← value.record? 14
  let id ← record.required? 0 "id" Json.text?
  let kind ← record.required? 1 "kind" MethodKind.ofJson?
  let name ← record.required? 2 "name" Json.text?
  let displaySignature ← record.required? 3 "displaySignature" Json.text?
  let signature ← record.required? 4 "signature" Json.text?
  let parameters ← record.required? 5 "parameters" (Json.list? Parameter.ofJson?)
  let returnType ← record.optional? 6 "returnType" Json.text?
  let startLine ← record.required? 7 "startLine" Json.word32?
  let endLine ← record.required? 8 "endLine" Json.word32?
  let hasComment ← record.required? 9 "hasComment" Json.bool?
  let description ← record.required? 10 "description" Json.text?
  let tags ← record.required? 11 "tags" TagTable.ofJson?
  let owner ← record.required? 12 "owner" Json.text?
  let visibility ← record.required? 13 "visibility" Visibility.ofJson?
  some
    { id, kind, name, displaySignature, signature, parameters, returnType, startLine, endLine
      hasComment, description, tags, owner, visibility }

end MethodDoc

namespace FieldDoc

def toJson (field : FieldDoc) : Json :=
  .obj [("name", .str field.name), ("type", .str field.typeName),
    ("declaration", .str field.declaration), ("startLine", .nat field.startLine.toNat),
    ("hasComment", .bool field.hasComment), ("description", .str field.description),
    ("isConstant", .bool field.isConstant), ("visibility", field.visibility.toJson),
    ("owner", .str field.owner)]

def ofJson? (value : Json) : Option FieldDoc := do
  let record ← value.record? 9
  let name ← record.required? 0 "name" Json.text?
  let typeName ← record.required? 1 "type" Json.text?
  let declaration ← record.required? 2 "declaration" Json.text?
  let startLine ← record.required? 3 "startLine" Json.word32?
  let hasComment ← record.required? 4 "hasComment" Json.bool?
  let description ← record.required? 5 "description" Json.text?
  let isConstant ← record.required? 6 "isConstant" Json.bool?
  let visibility ← record.required? 7 "visibility" Visibility.ofJson?
  let owner ← record.required? 8 "owner" Json.text?
  some
    { name, typeName, declaration, startLine, hasComment, description, isConstant, visibility
      owner }

end FieldDoc

namespace EnumConstantDoc

def toJson (constant : EnumConstantDoc) : Json :=
  .obj [("name", .str constant.name), ("startLine", .nat constant.startLine.toNat),
    ("hasComment", .bool constant.hasComment), ("description", .str constant.description),
    ("arguments", .str constant.arguments), ("owner", .str constant.owner)]

def ofJson? (value : Json) : Option EnumConstantDoc := do
  let record ← value.record? 6
  let name ← record.required? 0 "name" Json.text?
  let startLine ← record.required? 1 "startLine" Json.word32?
  let hasComment ← record.required? 2 "hasComment" Json.bool?
  let description ← record.required? 3 "description" Json.text?
  let arguments ← record.required? 4 "arguments" Json.text?
  let owner ← record.required? 5 "owner" Json.text?
  some { name, startLine, hasComment, description, arguments, owner }

end EnumConstantDoc

/-! ## §3 Documents -/

namespace Authorship

def toJson (authorship : Authorship) : Json :=
  .obj [("author", .str authorship.author), ("lastModifier", .str authorship.lastModifier),
    ("lastModifyDate", .str authorship.lastModifyDate)]

def ofJson? (value : Json) : Option Authorship := do
  let record ← value.record? 3
  let author ← record.required? 0 "author" Json.text?
  let lastModifier ← record.required? 1 "lastModifier" Json.text?
  let lastModifyDate ← record.required? 2 "lastModifyDate" Json.text?
  some { author, lastModifier, lastModifyDate }

end Authorship

namespace ModelSource

def toJson (source : ModelSource) : Json := .str source.name

def ofJson? (value : Json) : Option ModelSource := value.choice? all name

end ModelSource

namespace DocumentModel

def toJson (model : DocumentModel) : Json :=
  .ofFields [("document", some (.str model.document.value)),
    ("containerName", some (.str model.containerName)),
    ("hasComment", some (.bool model.hasComment)), ("description", some (.str model.description)),
    ("packageName", model.packageName.map .str),
    ("containerLine", model.containerLine.map fun line => .nat line.toNat),
    ("methods", some (.arr (model.methods.map MethodDoc.toJson))),
    ("fields", some (.arr (model.fields.map FieldDoc.toJson))),
    ("enumConstants", some (.arr (model.enumConstants.map EnumConstantDoc.toJson))),
    ("authorship", model.authorship.map Authorship.toJson), ("author", model.author.map .str),
    ("since", model.since.map .str), ("source", some model.source.toJson)]

def ofJson? (value : Json) : Option DocumentModel := do
  let record ← value.record? 13
  let document ← record.required? 0 "document" Json.text?
  let containerName ← record.required? 1 "containerName" Json.text?
  let hasComment ← record.required? 2 "hasComment" Json.bool?
  let description ← record.required? 3 "description" Json.text?
  let packageName ← record.optional? 4 "packageName" Json.text?
  let containerLine ← record.optional? 5 "containerLine" Json.word32?
  let methods ← record.required? 6 "methods" (Json.list? MethodDoc.ofJson?)
  let fields ← record.required? 7 "fields" (Json.list? FieldDoc.ofJson?)
  let enumConstants ← record.required? 8 "enumConstants" (Json.list? EnumConstantDoc.ofJson?)
  let authorship ← record.optional? 9 "authorship" Authorship.ofJson?
  let author ← record.optional? 10 "author" Json.text?
  let since ← record.optional? 11 "since" Json.text?
  let source ← record.required? 12 "source" ModelSource.ofJson?
  some
    { document := ⟨document⟩, containerName, hasComment, description, packageName, containerLine
      methods, fields, enumConstants, authorship, author, since, source }

end DocumentModel

end DeclDocs
