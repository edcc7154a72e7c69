import ClientGen.Collection.Table
import ClientGen.Document.Basic
import ClientGen.Files.Basic
import ClientGen.Files.Glob
import ClientGen.Files.Url
import ClientGen.Text.Quoted

/-! # Entries and what they reach

The interface files that code is generated for, and the documents that this code is
made from. A configured entry is a path or a pattern; a pattern that matches several
files gives an entry for each, named after its file.
-/

namespace ClientGen
namespace Generate

/-! ## Entries -/

open Source (Failure)

/-- An interface file that code is generated for, and the name it goes by. -/
structure Entry where
  name : String
  path : String
deriving DecidableEq, Repr, Inhabited

def isPattern (path : String) : Bool := path.toList.any fun c => "*?[\x7b".toList.contains c

def matching (paths : List String) (pattern : String) : List String :=
  sortTexts (paths.filter fun p => Files.Kind.ofPath p != .none && Glob.isMatch pattern p)

/-- The name of a file without directory and extension. -/
def fileStem (path : String) : String := Text.dropEnd (Path.base path) (Path.ext path)

def entriesOf (paths : List String) (name target : String) : Except Failure (List Entry) :=
  let path := Path.rooted target
  if !isPattern path then .ok [⟨name, path⟩]
  else if !Glob.valid path then
    .error (.context ("entry " ++ name) (.plain ("invalid pattern " ++ Text.quoted path)))
  else
    match matching paths path with
    | [] => .error (.plain ("entry " ++ name ++ ": " ++ target ++ " matches no IDL file"))
    | [one] => .ok [⟨name, one⟩]
    | several => .ok (several.map fun p => ⟨name ++ "/" ++ fileStem p, p⟩)

/-- The entries of all configured names, in the order of the names. -/
def resolveEntries (paths : List String) (targets : Table String) : Except Failure (List Entry) := do
  let found ← targets.sorted.mapM fun (name, target) => entriesOf paths name target
  return found.flatten

/-! ## What an entry reaches

The documents that the code of an entry is made from: its own and all those that
it includes, directly or through others.
-/

def includedPath? (docs : Table Document) (source path : String) : Option String :=
  (Target.candidates source path).find? docs.has

/-- Adds the documents that a list of included paths means, each once, to those
that are still to be visited. -/
def discover (docs : Table Document) (source : String) (seen : List String) :
    List String → List String
  | [] => seen
  | path :: rest =>
    match includedPath? docs source path with
    | some p => discover docs source (if seen.contains p then seen else seen ++ [p]) rest
    | none => discover docs source seen rest

/-- Visits documents breadth first from position `n` of those that were seen. Each
visit moves on by one, and no document is seen twice, so the number of documents
bounds the visits. -/
def visitFrom (docs : Table Document) : Nat → Nat → List String → List String
  | 0, _, seen => seen
  | fuel + 1, n, seen =>
    match seen[n]? with
    | none => seen
    | some path =>
      let includes := ((docs.find? path).map (·.includes)).getD []
      visitFrom docs fuel (n + 1) (discover docs path seen includes)

/-- The document of an entry followed by all that it reaches, each once. -/
def reachable (docs : Table Document) (d : Document) : List Document :=
  (visitFrom docs (docs.length + 1) 0 [d.path]).filterMap docs.find?

end Generate
end ClientGen
