import ClientGen.Document.Basic
import ClientGen.Files.Path
import ClientGen.Typescript.TypeName

/-! # Names across documents

Which declaration a name means in a document. In Thrift a name may be qualified
by the stem of an included file; in Protobuf it is looked up from the package of
the document outward, over all documents.
-/

namespace ClientGen

/-- The documents of a run; a later one with the same path replaces the earlier. -/
structure Symbols where
  docs : Table Document := []
deriving Repr, Inhabited

namespace Symbols

def ofDocs (docs : List Document) : Symbols :=
  { docs := Table.ofList (docs.map fun d => (d.path, d)) }

def collect (s : Symbols) (d : Document) : Symbols := { docs := s.docs.insert d.path d }

def declares (name : String) : Statement → Bool
  | .service _ => false
  | st => st.name == name

/-- The declaration of a name at the top of a document; the last one wins. -/
def local? (d : Document) (name : String) : Option Statement :=
  d.statements.reverse.find? (declares name)

/-- The declaration of a name in the document that stands at a path. -/
def at? (s : Symbols) (path name : String) : Option Statement := do
  local? (← s.docs.find? path) name

/-- The document that an included path means: next to the including file, else
from the root. -/
def includeTarget? (s : Symbols) (source : Document) (path : String) : Option Document :=
  s.docs.find? (Path.join [Path.dir source.path, path]) <|> s.docs.find? (Path.rooted path)

/-- The name by which an included file qualifies its declarations. -/
def qualifier (path : String) : String := Text.dropEnd (Path.base path) (Path.ext path)

def includeSearch? (s : Symbols) (source : Document) (name : String) :
    Option (Statement × Document) := do
  let (scope, base) ← Text.cut? name "."
  source.includes.findSome? fun path => do
    let target ← s.includeTarget? source path
    if qualifier path ≠ scope then none
    let st ← local? target base
    return (st, target)

def qualified (package name : String) : String :=
  if package = "" then name else package ++ "." ++ name

/-- The packages around a document, outermost first: the empty one, then one more for
each segment of its own. -/
def packages (d : Document) : List String :=
  if d.namespaceName = "" then [""]
  else (Text.split d.namespaceName ".").scanl qualified ""

/-- What is left of a full name inside the package of a document. -/
def within? (d : Document) (full : String) : Option String :=
  if d.namespaceName = "" then some full
  else (Text.dropStart? (d.namespaceName ++ ".").toList full.toList).map String.ofList

/-- Looks a name up in all documents, in order of their paths, from the package
of a document outward; a name behind a dot is looked up from the outermost
package inward. -/
def packageSearch? (s : Symbols) (source : Document) (name : String) :
    Option (Statement × Document) :=
  let rooted := Text.startsWith name "."
  let name := Text.dropStart name "."
  let order := if rooted then packages source else (packages source).reverse
  order.findSome? fun package =>
    s.docs.sorted.findSome? fun (_, d) => do
      let rest ← within? d (qualified package name)
      let st ← local? d (Text.replace rest "." "_")
      return (st, d)

def resolve? (s : Symbols) (source : Document) (name : String) : Option (Statement × Document) :=
  match s.at? source.path name with
  | some st => some (st, source)
  | none =>
    match source.dialect with
    | .protobuf => s.packageSearch? source name
    | .thrift => s.includeSearch? source name

/-! ## Names in generated code

The name that a declared type has in generated code, and whether it is an
enumeration, seen through other names of types.
-/

open Typescript (Resolved Resolver)

/-- The number of declarations in all documents. -/
def size (s : Symbols) : Nat :=
  s.docs.foldl (fun total (_, d) => total + d.statements.length) 0

/-- What a name means in a document; `fuel` bounds the chain of type names. A
type name for its own name leads nowhere. -/
def resolvedAux (s : Symbols) : Nat → Document → String → Option Resolved
  | 0, _, _ => none
  | fuel + 1, d, name =>
    match s.resolve? d name with
    | some (.struct x, _) => some { name := x.name, enum := false }
    | some (.enum e, _) => some { name := e.name, enum := true }
    | some (.typedef t, decl) =>
      let enum :=
        match t.type with
        | .identifier next =>
          next ≠ name && ((s.resolvedAux fuel decl next).map (·.enum)).getD false
        | _ => false
      some { name := t.name, enum }
    | _ => none

/-- How the names of a document are resolved. A chain of type names without repetition
comes through each declaration at most twice: once in the document that holds it, and once
more if another document is looked from, which sees the names of the one at its path. -/
def resolver (s : Symbols) (d : Document) : Resolver := s.resolvedAux (2 * s.size + 1) d

end Symbols
end ClientGen
