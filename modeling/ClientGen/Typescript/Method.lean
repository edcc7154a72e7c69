import ClientGen.Json.Basic
import ClientGen.Source.Failure
import ClientGen.Typescript.Doc

/-! # Methods and service modules

A method of a generated client is a constant that holds how a request is sent.
Parameters in its path are taken from the request where a field is mapped to
them, and else asked from a provider.
-/

namespace ClientGen
namespace Typescript

open Source (Failure)

/-- What is known about a method of a service. -/
structure Method where
  name : String := ""
  service : String := ""
  request : String := ""
  response : String := ""
  url : String := ""
  verb : String := ""
  serializer : String := ""
  group : String := ""
  /-- The wire names of the request fields by the place where they travel. -/
  mapping : Table (List String) := []
  comments : List String := []
deriving DecidableEq, Repr, Inhabited

/-- The function asked for parameters that no field provides, unless another is
configured. -/
def defaultProvider : String := "getDefaultPathParam"

def providerOr (provider : String) : String := if provider = "" then defaultProvider else provider

def segmentParam? (segment : String) : Option String :=
  match segment.toList with
  | ':' :: c :: cs => some (String.ofList (c :: cs))
  | _ => none

/-- Whether rendering leaves a segment of a path as it is: no colon stands in front, or
nothing behind it. -/
def isVerbatim (segment : String) : Bool :=
  !Text.startsWith segment ":" || segment.utf8ByteSize < 2

namespace Method

def segments (m : Method) : List String := Text.split m.url "/"

def pathParams (m : Method) : List String := m.segments.filterMap segmentParam?

def mappedParams (m : Method) : List String := (m.mapping.find? "path").getD []

/-- The parameters that are rendered and that no request field is mapped to. -/
def unmapped (m : Method) : List String :=
  ((m.segments.filter fun s => !isVerbatim s).map fun s => Text.dropStart s ":").filter
    fun p => !m.mappedParams.contains p

def placeholder (m : Method) (provider segment : String) : String :=
  if isVerbatim segment then segment
  else
    let p := Text.dropStart segment ":"
    if m.mappedParams.contains p then "$\x7breq." ++ p ++ "\x7d"
    else "$\x7boption.pathParams?." ++ p ++ " ?? " ++ provider ++ "('" ++ p ++ "')\x7d"

def renderedUrl (m : Method) (provider : String) : String :=
  "/".intercalate (m.segments.map (m.placeholder provider))

def wire (m : Method) (provider : String) : Json :=
  let optional (key value : String) : List (String × Json) :=
    if value = "" then [] else [(key, .string value)]
  .object (
    [("url", .string (m.renderedUrl provider)), ("method", .string m.verb), ("name", .string m.name),
      ("reqType", .string m.request), ("resType", .string m.response)] ++
    (if m.mapping.isEmpty then []
      else [("reqMapping", .object (m.mapping.sorted.map fun (k, names) =>
        (k, .array (names.map .string))))]) ++
    optional "serializer" m.serializer ++ optional "group" m.group)

def typeArguments (m : Method) : String :=
  let orAny (t : String) : String := if t = "" then "any" else t
  let params := m.unmapped.map fun p => p ++ ": string | number"
  ", ".intercalate ([orAny m.request, orAny m.response] ++
    if params.isEmpty then [] else ["\x7b" ++ "; ".intercalate params ++ "\x7d"])

def render (m : Method) (provider : String) : Except Failure String :=
  if m.name = "" then .error (.plain "method without a name")
  else .ok (doc "" m.comments ++ "export const " ++ m.name ++ " = createAPI<" ++ m.typeArguments ++
    ">(" ++ (m.wire (providerOr provider)).compact ++ ");\n")

end Method

/-- Characters of names in type texts. -/
def isNameChar (c : Char) : Bool :=
  c == '_' || c == '$' || (c.toNat < 128 && c.isAlphanum)

/-- Splits a text into its longest runs of characters that satisfy `p`. -/
def runs (p : Char → Bool) : List Char → List Char → List String
  | word, [] => if word.isEmpty then [] else [String.ofList word.reverse]
  | word, c :: cs =>
    if p c then runs p (c :: word) cs
    else if word.isEmpty then runs p [] cs
    else String.ofList word.reverse :: runs p [] cs

/-- Names in type texts that are not imported. -/
def builtinNames : List String :=
  ["any", "void", "number", "string", "boolean", "object", "Record"]

/-- The names that a type text needs from the types module. -/
def importedNames (type : String) : List String :=
  (runs isNameChar [] type.toList).filter fun n => !builtinNames.contains n

structure ServiceModule where
  /-- The module that holds the client runtime. -/
  runtime : String := ""
  /-- The module that holds the types. -/
  types : String := ""
  /-- Further imports, written as they are. -/
  imports : List String := []
  methods : List Method := []
deriving Repr, Inhabited

namespace ServiceModule

def typeNames (s : ServiceModule) : List String :=
  sortDistinct (s.methods.flatMap fun m => importedNames m.request ++ importedNames m.response)

def render (s : ServiceModule) (provider : String) : Except Failure String := do
  let bodies ← s.methods.mapM fun m => m.render provider
  let asks := s.methods.any fun m => !m.unmapped.isEmpty
  let names := ["createAPI"] ++ if asks then [providerOr provider] else []
  let imports :=
    ["import \x7b " ++ ", ".intercalate names ++ " \x7d from '" ++ s.runtime ++ "';\n"] ++
    (if s.typeNames.isEmpty then []
      else ["import type \x7b " ++ ", ".intercalate s.typeNames ++ " \x7d from '" ++ s.types ++
        "';\n"]) ++
    s.imports.map fun i => Text.dropEnd i "\n" ++ "\n"
  return String.join imports ++ String.join (bodies.map fun b => "\n" ++ b)

end ServiceModule

end Typescript
end ClientGen
