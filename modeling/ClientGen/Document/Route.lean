import ClientGen.Document.Basic
import ClientGen.Text.LetterCase

/-! # Routes

Annotations of services, functions and fields say how they travel over HTTP.
Keys are written behind one of four starts; what follows it is the meaning.
-/

namespace ClientGen
namespace Route

/-- The starts of annotation keys that are read here, in the order in which they
are tried. -/
def keyStarts : List String := ["api.", "agw.", "pb_idl.api_method.", "api_method."]

/-- The method used when a declaration names a path but no method. -/
def defaultMethod : String := "GET"

/-- The keys that name a method, with the method. -/
def verbs : List (String × String) :=
  [("get", "GET"), ("post", "POST"), ("put", "PUT"), ("delete", "DELETE"), ("patch", "PATCH")]

def fieldKeys : List String :=
  ["path", "query", "body", "header", "cookie", "raw_body", "none", "alias"]

def meaning? (key : String) : Option String :=
  keyStarts.findSome? fun start =>
    (Text.dropStart? start.toList key.toList).map String.ofList

/-- Where a declaration itself says it is routed to. -/
structure Target where
  method : String := ""
  uri : String := ""
  verbMethod : String := ""
  verbUri : String := ""
  routed : Bool := false
deriving DecidableEq, Repr, Inhabited

/-- A target with one more annotation read; later ones override earlier ones. -/
def Target.add (t : Target) (a : Annotation) : Target :=
  match meaning? a.key with
  | some "method" => { t with method := a.value, routed := true }
  | some "uri" => { t with uri := a.value, routed := true }
  | some key =>
    match verbs.lookup key with
    | some verb => { t with verbMethod := verb, verbUri := a.value, routed := true }
    | none => t
  | none => t

/-- The method of a target: a spelled out one, else the one of a verb. -/
def Target.chosenMethod (t : Target) : String :=
  if t.method ≠ "" then Text.upper t.method
  else if t.verbMethod ≠ "" then t.verbMethod
  else defaultMethod

/-- The path of a target: a spelled out one, else the value of a verb. -/
def Target.chosenUri (t : Target) : String := if t.uri ≠ "" then t.uri else t.verbUri

def addSetting (r : RouteConfig) (a : Annotation) : RouteConfig :=
  match meaning? a.key with
  | none => r
  | some key =>
    if fieldKeys.contains key || key == "method" || key == "uri" || (verbs.lookup key).isSome then r
    else if key == "serializer" then { r with serializer := a.value }
    else if key == "group" then { r with group := a.value }
    else { r with extra := r.extra.insert key a.value }

/-- The HTTP mapping of a declaration. The target is read from its own
annotations only; the other settings fall back to the inherited ones. Without a
target there is no mapping. -/
def config? (own inherited : List Annotation) : Option RouteConfig :=
  let target := own.foldl Target.add {}
  if target.routed then
    some ((inherited ++ own).foldl addSetting
      { method := target.chosenMethod, uri := target.chosenUri })
  else none

/-- Where a request field travels. -/
inductive Place where
  | path | query | body | header | cookie
deriving DecidableEq, Repr, Inhabited

namespace Place

def name : Place → String
  | path => "path"
  | query => "query"
  | body => "body"
  | header => "header"
  | cookie => "cookie"

def ofName? : String → Option Place
  | "path" => some path
  | "query" => some query
  | "body" => some body
  | "header" => some header
  | "cookie" => some cookie
  | _ => none

end Place

def placed? (f : Field) (a : Annotation) : Option (Place × String) := do
  let key ← meaning? a.key
  let place ← Place.ofName? key
  return (place, if a.value = "" then f.name else a.value)

/-- Where a request field is sent and the name it has there: as its first mapping
annotation says, else in the body for methods that carry one and in the query
otherwise. -/
def fieldPlace (f : Field) (method : String) : Place × String :=
  match f.annotations.findSome? (placed? f) with
  | some found => found
  | none =>
    if ["POST", "PUT", "PATCH"].contains (Text.upper method) then (.body, f.name)
    else (.query, f.name)

/-- Whether a field is left out of the generated types. -/
def hidden (as : List Annotation) : Bool :=
  as.any fun a => meaning? a.key == some "none" && a.value != "false"

end Route
end ClientGen
