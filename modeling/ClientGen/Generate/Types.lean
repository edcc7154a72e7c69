import ClientGen.Pipeline.Run
import ClientGen.Typescript.Declaration

/-! # The types module

The declarations of structures, enumerations, type names and constants of some
documents. The first declaration of a name wins; later ones give a warning.
-/

namespace ClientGen
namespace Generate

open Pipeline (Registry Warning)
open Source (Failure)
open Typescript (Declaration Property Member typeName)

structure TypeStyle where
  /-- Whether optional properties may be null. -/
  nullable : Bool := false
  /-- Whether enumerations as keys of maps are numbers. -/
  enumKeysAsNumbers : Bool := false
deriving DecidableEq, Repr, Inhabited

def propertyOf (g : Registry) (style : TypeStyle) (d : Document) (owner : String) (f : Field) :
    Except Failure Property := do
  let type ← Failure.within (owner ++ "." ++ f.name)
    (typeName g.types (g.symbols.resolver d) style.enumKeysAsNumbers f.type)
  return { name := f.name, type, optional := f.optional, nullable := style.nullable,
           comments := commentLines f.comments }

/-- The text of a constant: a name stays a name. -/
def constText : Const → Except Failure String
  | .scalar .identifier text => .ok text
  | c => (Value.ofConst c).literal

def declarationOf (g : Registry) (style : TypeStyle) (d : Document) :
    Statement → Except Failure (Option Declaration)
  | .service _ => .ok none
  | .struct s => do
    let properties ← s.fields.mapM (propertyOf g style d s.name)
    return some (.interface s.name (commentLines s.comments) properties)
  | .enum e =>
    let members := e.members.map fun m =>
      ({ name := m.name, value := m.value, comments := commentLines m.comments } : Member)
    .ok (some (.enum e.name (commentLines e.comments) members))
  | .typedef t => Failure.within ("typedef " ++ t.name) do
    let type ← typeName g.types (g.symbols.resolver d) style.enumKeysAsNumbers t.type
    return some (.synonym t.name (commentLines t.comments) type)
  | .const c => Failure.within ("const " ++ c.name) do
    let type ← typeName g.types (g.symbols.resolver d) style.enumKeysAsNumbers c.type
    let value ← constText c.value
    return some (.const c.name (commentLines c.comments) type value)

def statementsOf (docs : List Document) : List (Document × Statement) :=
  docs.flatMap fun d => d.statements.map fun st => (d, st)

/-- Whether a statement declares a name of the types module. -/
def declaresType : Statement → Bool
  | .service _ => false
  | _ => true

/-- Renders statements; `seen` tells which names were declared and where. -/
def declareAll (g : Registry) (style : TypeStyle) :
    Table String → List (Document × Statement) → Except Failure (List Declaration) × List Warning
  | _, [] => (.ok [], [])
  | seen, (d, st) :: rest =>
    if !declaresType st then declareAll g style seen rest
    else
      match seen.find? st.name with
      | some first =>
        let (result, warnings) := declareAll g style seen rest
        (result, { message := "duplicate type name",
                   fields := [("file", d.path), ("name", st.name), ("first", first)] } :: warnings)
      | none =>
        match declarationOf g style d st with
        | .error f => (.error f, [])
        | .ok declaration =>
          let (result, warnings) := declareAll g style (seen.insert st.name d.path) rest
          (result.map (declaration.toList ++ ·), warnings)

def typeDeclarations (g : Registry) (style : TypeStyle) (docs : List Document) :
    Except Failure (List Declaration) × List Warning :=
  declareAll g style [] (statementsOf docs)

end Generate
end ClientGen
