import ClientGen.Document.Basic
import ClientGen.Proto.Document
import ClientGen.Source.Failure
import ClientGen.Text.Quoted

/-! # Type names in TypeScript

The name that a type of a document has in generated code. Scalars are mapped by
a table, in which 64-bit integers may be numbers or strings; declared types keep
their names and unknown ones are `any`.
-/

namespace ClientGen
namespace Typescript

open Source (Failure Diagnostic)

/-- The type that 64-bit integers have in generated code. -/
structure Mapper where
  i64 : String := "number"
deriving DecidableEq, Repr, Inhabited

namespace Mapper

def setI64 (m : Mapper) (target : String) : Except Failure Mapper :=
  if target = "number" ∨ target = "string" then .ok { m with i64 := target }
  else .error (.plain ("unsupported i64 mapping " ++ Text.quoted target ++
    ", want \"number\" or \"string\""))

/-- The scalar of the document model that a scalar of either language means. -/
def baseName? (name : String) : Option String :=
  if FieldType.scalars.contains name then some name else Proto.scalars.lookup name

def scalar (m : Mapper) (name : String) : Except Failure String :=
  match baseName? name with
  | some "i64" => .ok (if m.i64 = "" then "number" else m.i64)
  | some "string" => .ok "string"
  | some "binary" => .ok "object"
  | some "bool" => .ok "boolean"
  | some _ => .ok "number"
  | none => .error (.diagnostic (.unknownType {} name))

end Mapper

/-- What a declared name means: its name in generated code, and whether it is an
enumeration. -/
structure Resolved where
  name : String
  enum : Bool
deriving DecidableEq, Repr, Inhabited

abbrev Resolver := String → Option Resolved

/-- The type of the keys of a map: numbers for scalars that are numbers and, when
asked, for enumerations; texts otherwise. -/
def keyType (m : Mapper) (resolve : Resolver) (enumKeysAsNumbers : Bool) :
    FieldType → Except Failure String
  | .base name => do
    let t ← m.scalar name
    return if t = "number" then "number" else "string"
  | .identifier name =>
    match resolve name with
    | some r => .ok (if r.enum && enumKeysAsNumbers then "number" else "string")
    | none => .ok "string"
  | _ => .ok "string"

/-- The name of a type. The element of a list is put in parentheses when it has a
blank or a bar in it. -/
def typeName (m : Mapper) (resolve : Resolver) (enumKeysAsNumbers : Bool) :
    FieldType → Except Failure String
  | .void => .ok "void"
  | .base name => m.scalar name
  | .identifier name => .ok (((resolve name).map (·.name)).getD "any")
  | .list e => do return listOf (← typeName m resolve enumKeysAsNumbers e)
  | .set e => do return listOf (← typeName m resolve enumKeysAsNumbers e)
  | .map k v => do
    let k ← keyType m resolve enumKeysAsNumbers k
    let v ← typeName m resolve enumKeysAsNumbers v
    return "Record<" ++ k ++ ", " ++ v ++ ">"
  | .other kind _ => .error (.diagnostic (.unknownType {} kind))
where
  /-- The type of lists of a type. -/
  listOf (t : String) : String :=
    if t.toList.any fun c => c == ' ' || c == '|' then "(" ++ t ++ ")[]" else t ++ "[]"

end Typescript
end ClientGen
