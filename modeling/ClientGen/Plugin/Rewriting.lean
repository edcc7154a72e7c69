import ClientGen.Document.Route
import ClientGen.Document.Walk
import ClientGen.Files.Glob
import ClientGen.Files.Url
import ClientGen.Pipeline.Stage
import ClientGen.Typescript.Doc

/-! # Plugins that rewrite documents

Comments lose their decoration, included paths are spelled out, services are renamed and
fields are left out, before anything is rendered.
-/

namespace ClientGen
namespace Plugin

open Pipeline
open Source (Failure)

/-! ## Comments

Comments lose their decoration everywhere in all documents.
-/

def comments : Plugin Stage where
  name := "comment"
  registrations :=
    [(Stage.onDocuments (Document.mapComments (·.map Comment.clean))).registration "ON" 0]

/-! ## Includes

Included paths are spelled out from the including file. A path that names the
same file as an earlier one is dropped with a warning.
-/

/-- The included paths spelled out, each once, and the given paths that were
dropped. `seen` holds the ones that were met, last first. -/
def spellIncludes (seen : List String) : List String → List String × List String
  | [] => ([], [])
  | path :: rest =>
    let spelled := Target.relative path
    if seen.contains spelled then
      let (kept, dropped) := spellIncludes seen rest
      (kept, path :: dropped)
    else
      let (kept, dropped) := spellIncludes (spelled :: seen) rest
      (spelled :: kept, dropped)

def includesOf (d : Document) : Document := { d with includes := (spellIncludes [] d.includes).1 }

def includeWarnings (d : Document) : List Warning :=
  (spellIncludes [] d.includes).2.map fun path =>
    { message := "duplicate include", fields := [("file", d.path), ("include", path)] }

def includes : Plugin Stage where
  name := "include"
  registrations :=
    [(Stage.onEntries fun c r =>
      ({ c with documents := c.documents.map includesOf },
        { r with warnings := r.warnings ++ c.documents.flatMap includeWarnings })).registration
      "ON" Stage.early]

/-! ## Aliases

Services are renamed as configured, or as their own annotation says. A service is
renamed at most once.
-/

def aliasKey : String := "api.alias"

/-- The new name of a service, when it has one. The configured names win. -/
def newName? (aliases : Table String) (s : Service) : Option String := do
  let name ← aliases.find? s.name <|> Annotation.lookup? s.annotations aliasKey
  if name = "" ∨ name = s.name then none else some name

/-- Renames the services among some statements. `place` tells the place of each
from its position, and `done` the places that were renamed before. -/
def renameStatements (aliases : Table String) (place : Nat → Nat × Nat × Nat)
    (done : List (Nat × Nat × Nat)) : Nat → List Statement → List Statement × List (Nat × Nat × Nat)
  | _, [] => ([], done)
  | n, .service s :: rest =>
    match (if done.contains (place n) then none else newName? aliases s) with
    | some name =>
      let (rest, done) := renameStatements aliases place (place n :: done) (n + 1) rest
      (.service { s with name } :: rest, done)
    | none =>
      let (rest, done) := renameStatements aliases place done (n + 1) rest
      (.service s :: rest, done)
  | n, st :: rest =>
    let (rest, done) := renameStatements aliases place done (n + 1) rest
    (st :: rest, done)

/-- Renames the services of some documents, which are numbered from `n` on. -/
def renameDocuments (slot : Nat) (aliases : Table String) (done : List (Nat × Nat × Nat)) :
    Nat → List Document → List Document × List (Nat × Nat × Nat)
  | _, [] => ([], done)
  | n, d :: rest =>
    let (statements, done) := renameStatements aliases (fun k => (slot, n, k)) done 0 d.statements
    let (rest, done) := renameDocuments slot aliases done (n + 1) rest
    ({ d with statements } :: rest, done)

/-- Renames services; the plugin remembers under `slot` which ones. -/
def aliases (slot : Nat) (table : Table String) : Plugin Stage where
  name := "alias"
  registrations :=
    [(Stage.onEntries fun c r =>
      let (documents, renamed) := renameDocuments slot table r.renamed 0 c.documents
      ({ c with documents }, { r with renamed })).registration "ON" 0]

/-! ## Field filters

Fields of structures are left out when an annotation hides them or when one of
some patterns matches the names of the structure and the field.
-/

def excluded (patterns : List String) (s : Struct) (f : Field) : Bool :=
  Route.hidden f.annotations || patterns.any fun p => Glob.isMatch p (s.name ++ "." ++ f.name)

def filterStatement (patterns : List String) : Statement → Statement
  | .struct s => .struct { s with fields := s.fields.filter fun f => !excluded patterns s f }
  | st => st

def filterDocument (patterns : List String) (d : Document) : Document :=
  { d with statements := d.statements.map (filterStatement patterns) }

/-- Leaves out fields by some patterns, which have to be well formed. -/
def fieldFilter (patterns : List String) : Except Failure (Plugin Stage) :=
  match patterns.find? fun p => !Glob.valid p with
  | some p => .error (.plain ("invalid field pattern " ++ Text.quoted p))
  | none =>
    .ok { name := "fieldfilter",
          registrations := [(Stage.onDocuments (filterDocument patterns)).registration "ON" 0] }

end Plugin
end ClientGen
