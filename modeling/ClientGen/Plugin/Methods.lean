import ClientGen.Document.Route
import ClientGen.Pipeline.Stage
import ClientGen.Text.Casing
import ClientGen.Typescript.Doc

/-! # The metadata plugin

Every routed function of a service becomes a method of the generated client.
Functions without a route are passed over.
-/

namespace ClientGen
namespace Plugin

open Pipeline
open Source (Failure)
open Typescript (Method typeName)

/-- The wire names of request fields by the place where they travel. -/
def requestMapping (fields : List Field) (verb : String) : Table (List String) :=
  (fields.filter fun f => !Route.hidden f.annotations).foldl (fun t f =>
    let (place, wire) := Route.fieldPlace f verb
    t.insert place.name ((t.find? place.name).getD [] ++ [wire])) []

/-- The fields of a request type: none unless it is the name of a structure. -/
def requestFields (s : Symbols) (d : Document) : FieldType → List Field
  | .identifier name =>
    match s.resolve? d name with
    | some (.struct st, _) => st.fields
    | _ => []
  | _ => []

def methodOf (g : Registry) (enumKeysAsNumbers : Bool) (d : Document) (s : Service) (f : Function)
    (route : RouteConfig) : Except Failure Method := do
  let name := typeName g.types (g.symbols.resolver d) enumKeysAsNumbers
  let m : Method :=
    { name := Text.lowerCamel f.name, service := s.name, url := route.uri, verb := route.method,
      serializer := route.serializer, group := route.group, comments := commentLines f.comments,
      response := ← name f.returns }
  match f.params with
  | [] => return m
  | p :: _ =>
    return { m with
      request := ← name p.type,
      mapping := requestMapping (requestFields g.symbols d p.type) route.method }

/-- Some methods with one more; one of the same name is replaced in its place. -/
def upsert (m : Method) : List Method → List Method
  | [] => [m]
  | x :: xs => if x.name == m.name then m :: xs else x :: upsert m xs

def addMethods (g : Registry) (enumKeysAsNumbers : Bool) (d : Document) (s : Service) :
    List Function → List Method → Except Failure (List Method)
  | [], ms => .ok ms
  | f :: rest, ms =>
    match f.route with
    | none => addMethods g enumKeysAsNumbers d s rest ms
    | some route => do
      let m ← Failure.within (s.name ++ "." ++ f.name) (methodOf g enumKeysAsNumbers d s f route)
      addMethods g enumKeysAsNumbers d s rest (upsert m ms)

def methods (enumKeysAsNumbers : Bool) : Plugin Stage where
  name := "meta"
  registrations :=
    [(Stage.generateFile fun c r =>
      match r.registry with
      | none => (.error (.plain "method metadata needs a registry"), r)
      | some g =>
        let added := addMethods g enumKeysAsNumbers c.document c.service c.service.functions c.methods
        (added.map fun methods => { c with methods }, r)).registration "ON" Stage.early]

end Plugin
end ClientGen
