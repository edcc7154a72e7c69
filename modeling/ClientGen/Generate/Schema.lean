import ClientGen.Generate.Types

/-! # JSON schemas

The structures, enumerations and type names of some documents as definitions of
a JSON schema. The first definition of a name wins.
-/

namespace ClientGen
namespace Generate

open Pipeline (Registry)

/-- A schema. Fields that are empty are not written, properties apart. -/
structure Schema where
  version : String := ""
  ref : String := ""
  defs : List (String × Json) := []
  items : Option Json := none
  properties : Option (List (String × Json)) := none
  additional : Option Json := none
  type : String := ""
  members : List Int := []
  required : List String := []
  description : String := ""
deriving Repr, Inhabited

def schemaVersion : String := "https://json-schema.org/draft/2020-12/schema"

/-- A schema as JSON; the one that demands nothing is written as true. -/
def Schema.toJson (s : Schema) : Json :=
  let text (key value : String) : List (String × Json) :=
    if value = "" then [] else [(key, .string value)]
  let some? (key : String) (value : Option Json) : List (String × Json) :=
    (value.map fun v => (key, v)).toList
  let many (key : String) (values : List Json) : List (String × Json) :=
    if values.isEmpty then [] else [(key, .array values)]
  let fields :=
    text "$schema" s.version ++ text "$ref" s.ref ++
    (if s.defs.isEmpty then [] else [("$defs", .object s.defs)]) ++
    some? "items" s.items ++ some? "properties" (s.properties.map .object) ++
    some? "additionalProperties" s.additional ++ text "type" s.type ++
    many "enum" (s.members.map fun n => .number (Text.ofInt n)) ++
    many "required" (s.required.map .string) ++ text "description" s.description
  if fields.isEmpty then .bool true else .object fields

def scalarSchema (i64 : String) : String → Schema
  | "bool" => { type := "boolean" }
  | "byte" => { type := "integer" }
  | "i8" => { type := "integer" }
  | "i16" => { type := "integer" }
  | "i32" => { type := "integer" }
  | "i64" => { type := if i64 = "string" then "string" else "integer" }
  | "double" => { type := "number" }
  | _ => { type := "string" }

def typeSchema (g : Registry) (d : Document) : FieldType → Schema
  | .void => { type := "null" }
  | .base name => scalarSchema g.types.i64 name
  | .identifier name =>
    match g.symbols.resolver d name with
    | some r => { ref := "#/$defs/" ++ r.name }
    | none => {}
  | .list e => { type := "array", items := some (typeSchema g d e).toJson }
  | .set e => { type := "array", items := some (typeSchema g d e).toJson }
  | .map _ v => { type := "object", additional := some (typeSchema g d v).toJson }
  | .other _ _ => {}

def description (cs : List Comment) : String := "\n".intercalate (commentLines cs)

def fieldSchema (g : Registry) (d : Document) (f : Field) : Schema :=
  { typeSchema g d f.type with description := description f.comments }

def definition? (g : Registry) (d : Document) : Statement → Option Schema
  | .struct s =>
    some { type := "object", description := description s.comments,
           properties := some (Table.ofList (s.fields.map fun f => (f.name, (fieldSchema g d f).toJson))),
           required := (s.fields.filter (·.required)).map (·.name) }
  | .enum e =>
    some { type := "integer", description := description e.comments,
           members := e.members.map (·.value) }
  | .typedef t => some { typeSchema g d t.type with description := description t.comments }
  | _ => none

/-- The definitions of some documents; the first of a name wins. -/
def definitions (g : Registry) (docs : List Document) : Table Json :=
  (statementsOf docs).foldl (fun defs (d, st) =>
    if defs.has st.name then defs
    else
      match definition? g d st with
      | some s => defs.insert st.name s.toJson
      | none => defs) []

def schemaText (g : Registry) (docs : List Document) : String :=
  let root : Schema := { version := schemaVersion, defs := (definitions g docs).sorted }
  (root.toJson.layout .escaped).indented "" "  " ++ "\n"

end Generate
end ClientGen
