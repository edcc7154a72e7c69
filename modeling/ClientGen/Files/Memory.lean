import ClientGen.Collection.Table
import ClientGen.Files.Basic

/-! # Files in memory

A file system that is a table from rooted paths to texts. A path that is no file
opens to the interface files beneath it, in order of their paths.
-/

namespace ClientGen
namespace Files

open Source (Failure Code)

/-- Texts by their rooted paths. -/
structure Memory where
  files : Table String := []
deriving Repr, Inhabited

namespace Memory

def ofList (entries : List (String × String)) : Memory :=
  { files := Table.ofList (entries.map fun (p, s) => (Path.rooted p, s)) }

def content? (m : Memory) (uri : String) : Option String := m.files.find? (Path.rooted uri)

def write (m : Memory) (uri text : String) : Memory :=
  { files := m.files.insert (Path.rooted uri) text }

def paths (m : Memory) : List String := sortTexts m.files.keys

/-- The interface files beneath a directory, in order of their paths. -/
def beneath (m : Memory) (dir : String) : List SourceFile :=
  let start := Text.dropEnd dir "/" ++ "/"
  let found := m.files.filter fun (k, _) => Text.startsWith k start && Kind.ofPath k != .none
  (Table.sorted found).map fun (k, s) => .ofText k s (Kind.ofPath k)

def openAt (m : Memory) (uri : String) : Except Failure (List SourceFile) :=
  let p := Path.rooted uri
  match m.files.find? p with
  | some s => .ok [.ofText p s (Kind.ofPath p)]
  | none =>
    match m.beneath p with
    | [] => .error (.diagnostic (.fileNotFound uri))
    | files => .ok files

/-- Several memories as one: what is written goes to the first. -/
def writeFirst (layers : List Memory) (uri text : String) : Except Failure (List Memory) :=
  match layers with
  | m :: rest => .ok (m.write uri text :: rest)
  | [] =>
    .error (.diagnostic { location := { uri }, code := Code.unsupportedOperation,
                          message := "cannot write to an empty composite file system" })

def system (m : Memory) : System := { openAt := m.openAt, bound := m.files.length }

end Memory
end Files
end ClientGen
