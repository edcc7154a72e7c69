import ClientGen.Document.Basic
import ClientGen.Json.Basic
import ClientGen.Text.LetterCase

/-! # Documents as trees

A document as a tree of named values, for printing. How names are spelled and how
an absent list is shown depends on the format.
-/

namespace ClientGen

open Source (Position)

/-- How a format shows the tree of a document. -/
structure ViewStyle where
  /-- The spelling of the name of a value. -/
  key : String → String
  /-- What stands for a list that a declaration does not have. -/
  noItems : Json

namespace ViewStyle

def json : ViewStyle := ⟨id, .null⟩

/-- Names in small letters, and an empty list for an absent one. -/
def yaml : ViewStyle := ⟨Text.lower, .array []⟩

def record (v : ViewStyle) (fields : List (String × Json)) : Json :=
  .object (fields.map fun (name, value) => (v.key name, value))

def items {α : Type} (v : ViewStyle) (show' : α → Json) (xs : List α) : Json :=
  if xs.isEmpty then v.noItems else .array (xs.map show')

def integer (n : Int) : Json := .number (Text.ofInt n)

def position (v : ViewStyle) (p : Position) : Json :=
  v.record [("Line", integer p.line.toInt), ("Column", integer p.column.toInt), ("Offset", integer p.offset)]

def annotation (v : ViewStyle) (a : Annotation) : Json :=
  v.record [("Key", .string a.key), ("Value", .string a.value), ("Loc", v.position a.position)]

def comment (v : ViewStyle) (c : Comment) : Json :=
  v.record [("Type", .string c.form.name), ("Value", .string c.value),
    ("Values", v.items .string c.values)]

def tail (v : ViewStyle) (comments : List Comment) (p : Position) : List (String × Json) :=
  [("Comments", v.items v.comment comments), ("Loc", v.position p)]

def annotatedTail (v : ViewStyle) (annotations : List Annotation) (comments : List Comment)
    (p : Position) : List (String × Json) :=
  ("Annotations", v.items v.annotation annotations) :: v.tail comments p

def typeRecord (v : ViewStyle) (kind name : String) (key value : Json) : Json :=
  v.record [("Kind", .string kind), ("Name", .string name), ("KeyType", key), ("ValueType", value)]

def type (v : ViewStyle) : FieldType → Json
  | .void => .null
  | .base n => v.typeRecord "base" n .null .null
  | .identifier n => v.typeRecord "identifier" n .null .null
  | .list e => v.typeRecord "list" "list" .null (v.type e)
  | .set e => v.typeRecord "set" "set" .null (v.type e)
  | .map k e => v.typeRecord "map" "map" (v.type k) (v.type e)
  | .other kind n => v.typeRecord kind n .null .null

def constRecord (v : ViewStyle) (kind text : String) (items pairs : Json) : Json :=
  v.record [("Kind", .string kind), ("Text", .string text), ("Items", items), ("Pairs", pairs)]

mutual

def const (v : ViewStyle) : Const → Json
  | .absent => .null
  | .scalar kind text => v.constRecord kind.name text v.noItems v.noItems
  | .list [] => v.constRecord "list" "" v.noItems v.noItems
  | .list (c :: rest) => v.constRecord "list" "" (.array (v.const c :: consts v rest)) v.noItems
  | .map [] => v.constRecord "map" "" v.noItems v.noItems
  | .map ((k, c) :: rest) =>
    v.constRecord "map" "" v.noItems
      (.array (v.record [("Key", v.const k), ("Value", v.const c)] :: pairs v rest))

def consts (v : ViewStyle) : List Const → List Json
  | [] => []
  | c :: rest => v.const c :: consts v rest

def pairs (v : ViewStyle) : List (Const × Const) → List Json
  | [] => []
  | (k, c) :: rest => v.record [("Key", v.const k), ("Value", v.const c)] :: pairs v rest

end

/-- The HTTP mapping of a declaration. Its empty values are left out. -/
def route (v : ViewStyle) : Option RouteConfig → Json
  | none => .null
  | some r =>
    let named (name value : String) : List (String × Json) :=
      if value = "" then [] else [(name, .string value)]
    let extra := if r.extra.isEmpty then []
      else [("extra", Json.object ((Table.sorted r.extra).map fun (k, x) => (k, .string x)))]
    v.record (named "method" r.method ++ named "uri" r.uri ++ named "serializer" r.serializer ++
      named "group" r.group ++ extra)

def field (v : ViewStyle) (f : Field) : Json :=
  v.record ([("ID", integer f.id), ("Name", .string f.name), ("Type", v.type f.type),
    ("Required", .bool f.required), ("Optional", .bool f.optional),
    ("DefaultValue", v.const f.default)] ++ v.annotatedTail f.annotations f.comments f.position)

def function (v : ViewStyle) (f : Function) : Json :=
  v.record ([("Name", .string f.name), ("Params", .array (f.params.map v.field)),
    ("ReturnType", v.type f.returns), ("Oneway", .bool f.oneway),
    ("ExtensionConfig", v.route f.route)] ++ v.annotatedTail f.annotations f.comments f.position)

def member (v : ViewStyle) (m : EnumMember) : Json :=
  v.record ([("Name", .string m.name), ("Value", integer m.value)] ++ v.tail m.comments m.position)

/-- The fields of a structure. Only a message may do without the list of them. -/
def fields (v : ViewStyle) (s : Struct) : Json :=
  if s.variant = .message then v.items v.field s.fields else .array (s.fields.map v.field)

def statement (v : ViewStyle) : Statement → Json
  | .service s =>
    v.record ([("Name", .string s.name), ("Extends", .string s.parent),
      ("Functions", v.items v.function s.functions), ("ExtensionConfig", v.route s.route)] ++
      v.annotatedTail s.annotations s.comments s.position)
  | .struct s =>
    v.record ([("Name", .string s.name), ("Variant", .string s.variant.name),
      ("Fields", v.fields s)] ++ v.annotatedTail s.annotations s.comments s.position)
  | .enum e =>
    v.record ([("Name", .string e.name), ("Members", v.items v.member e.members)] ++
      v.annotatedTail e.annotations e.comments e.position)
  | .typedef t => v.record ([("Name", .string t.name), ("Type", v.type t.type)] ++ v.tail t.comments t.position)
  | .const c =>
    v.record ([("Name", .string c.name), ("Type", v.type c.type), ("Value", v.const c.value)] ++
      v.tail c.comments c.position)

/-- A document with the kind of each declaration. A namespace and includes are left
out when there are none. -/
def document (v : ViewStyle) (d : Document) : Json :=
  let spaces := if d.namespaceName = "" then [] else [("namespace", Json.string d.namespaceName)]
  let includes := if d.includes.isEmpty then [] else [("includes", Json.array (d.includes.map .string))]
  let shown (s : Statement) : Json :=
    v.record [("kind", .string s.kind), ("statement", v.statement s)]
  v.record ([("path", .string d.path), ("dialect", .string d.dialect.name)] ++ spaces ++ includes ++
    [("statements", v.items shown d.statements)])

end ViewStyle
end ClientGen
