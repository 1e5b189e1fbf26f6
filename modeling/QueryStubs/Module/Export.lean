import QueryStubs.Module
import QueryStubs.Json.Value

/-!
# Modules as structured values

The form in which a module is exported: every field by its name, in a fixed order, `null` for what is absent, and a `kind` field
where there is more than one form.
-/

namespace QueryStubs

/-- A name as a structured value. -/
def QName.toJson (n : QName) : JsonValue :=
  .object [("prefix", .ofText? n.qualifier), ("local_part", .string n.localPart)]

/-- An item type as a structured value. -/
def ItemType.toJson : ItemType → JsonValue
  | atomic name => .object [("kind", .string "atomic"), ("name", name.toJson)]
  | kindTest test text =>
    .object [("kind", .string "kind_test"), ("test", .string test.keyword), ("text", .string text)]
  | anyItem => .object [("kind", .string "any_item")]
  | emptySequence => .object [("kind", .string "empty_sequence")]

/-- A sequence type as a structured value. -/
def SequenceType.toJson (t : SequenceType) : JsonValue :=
  .object [("item", t.item.toJson), ("occurrence", .string t.occurrence.label)]

/-- A sequence type, or `null` for none. -/
def SequenceType.toJson? : Option SequenceType → JsonValue
  | none => .null
  | some t => t.toJson

/-- A parameter as a structured value. -/
def Param.toJson (p : Param) : JsonValue := .object [("name", p.name.toJson), ("type", SequenceType.toJson? p.type)]

/-- The name a kind of body is exported under. -/
def FunctionBody.label : FunctionBody → String
  | enclosed => "enclosed"
  | external => "external"

/-- A range as a structured value. -/
def Span.toJson (s : Span) : JsonValue := .object [("start", .number s.start), ("end", .number s.stop)]

/-- A function as a structured value. -/
def FunctionDecl.toJson (f : FunctionDecl) : JsonValue :=
  .object [("name", f.name.toJson), ("params", .list (f.params.map Param.toJson)),
    ("return_type", SequenceType.toJson? f.returnType), ("body", .string f.body.label), ("span", f.span.toJson)]

/-- A version as a structured value. -/
def Version.toJson (v : Version) : JsonValue :=
  .object [("version", .ofText? v.version), ("encoding", .ofText? v.encoding)]

/-- A kind of module as a structured value. -/
def ModuleKind.toJson : ModuleKind → JsonValue
  | library qualifier uri =>
    .object [("kind", .string "library"), ("prefix", .string qualifier), ("uri", .string uri)]
  | main => .object [("kind", .string "main")]

/-- A module as a structured value. -/
def Module.toJson (m : Module) : JsonValue :=
  .object [("version", m.version.elim .null Version.toJson), ("kind", m.kind.toJson),
    ("functions", .list (m.functions.map FunctionDecl.toJson))]

end QueryStubs
