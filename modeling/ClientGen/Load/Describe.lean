import ClientGen.Descriptor.Compile
import ClientGen.Files.Basic

/-! # Descriptors of Protobuf files

Reads some Protobuf files and everything that they import, and describes them.
The standard files need not be there. Files that import one another in a circle
have no descriptors.
-/

namespace ClientGen
namespace Load

open Source (Reporter Failure Code Diagnostic Position)
open Descriptor (Described FileDescriptor ImportDecl Refusal)

/-- The source of a file, if there is one, and whether it is a standard file. -/
def sourceOf (system : Files.System) (path : String) : Except Failure (Option (String × Bool)) :=
  let standard := (Table.find? Descriptor.standardFiles path).map fun source => (source, true)
  let found := match system.openAt path with
    | .ok (f :: _) => f.read.map fun source => some (source, false)
    | .ok [] => .ok none
    | .error f => if f.code? = some Code.fileNotFound then .ok none else .error f
  match found with
  | .ok (some source) => .ok (some source)
  | .ok none => .ok standard
  | .error f => if standard.isSome then .ok standard else .error f

def unresolvedPath (path : String) : String :=
  "could not resolve path " ++ Text.quoted path ++ ": file does not exist"

def unresolvedImport (file : String) (i : ImportDecl) : String :=
  let p := i.path.place
  file ++ ":" ++ Text.ofInt p.line ++ ":" ++ Text.ofInt p.column ++ ": " ++ unresolvedPath i.path.text

def refused (r : Refusal) : Failure :=
  let p := r.complaint.place
  .diagnostic { location := { uri := r.path, position := { line := .ofInt p.line,
                                                           column := .ofInt p.column,
                                                           offset := p.offset } },
                code := Code.descriptorFailed, message := r.complaint.text }

/-- The complaint about an import that leads back to a file around it. -/
def importCircle (around : List String) (file : String) (i : ImportDecl) : Failure :=
  refused ⟨file, i.path.place, "cycle found in imports: " ++
    " -> ".intercalate ((around ++ [i.path.text]).map Text.quoted)⟩

/-- How deep imports may be nested: through every file once, with room for files that
are imported under several spellings of their paths. -/
def importDepth (system : Files.System) : Nat :=
  system.bound + Descriptor.standardFiles.length + 100

/-- Describes a file after the files that it imports. The files that import it are
`around` it, outermost first; `missing` is the failure if it is not there. -/
def describeFile (system : Files.System) : Nat → List String → String → String → Described →
    Except Failure Described
  | 0, _, missing, _, _ => .error (.plain missing)
  | fuel + 1, around, missing, path, done =>
    if done.files.has path then .ok done
    else do
      match ← sourceOf system path with
      | none => .error (.plain missing)
      | some (source, isStandard) =>
        match Descriptor.readOutline path source isStandard with
        | .error c => .error (refused ⟨path, c⟩)
        | .ok outline =>
          let around := around ++ [path]
          let imports := outline.body.imports
          match imports.find? fun i => around.contains i.path.text with
          | some i => .error (importCircle around path i)
          | none =>
            let done ← imports.foldlM (fun done i =>
              describeFile system fuel around (unresolvedImport path i) i.path.text done) done
            match done.add outline with
            | .error r => .error (refused r)
            | .ok done => .ok done

/-- The files listed so far, and the paths that were met on the way. -/
structure Listing where
  met : List String := []
  files : List FileDescriptor := []

/-- Lists a file, after the files that it imports if those are wanted, unless its path
was met before. The path is met before those imports are. -/
def addFile (done : Described) (withImports : Bool) : Nat → Listing → String → Listing
  | 0, listing, _ => listing
  | fuel + 1, listing, path =>
    if listing.met.contains path then listing
    else
      match Table.find? done.files path with
      | none => listing
      | some file =>
        let needed := if withImports then file.descriptor.dependencies else []
        let met := { listing with met := path :: listing.met }
        let listing := needed.foldl (addFile done withImports fuel) met
        { listing with files := listing.files ++ [file.descriptor] }

/-- The descriptors of some of the described files, perhaps with those of all files that
they import. -/
def descriptorSet (done : Described) (paths : List String) (withImports : Bool) :
    List FileDescriptor :=
  (paths.foldl (addFile done withImports (done.files.length + 1)) {}).files

/-- The descriptors of some files, perhaps with those of all files that they import.
A diagnostic that stops the work is reported. -/
def describe (system : Files.System) (paths : List String) (withImports : Bool) (r : Reporter) :
    Except Failure (List FileDescriptor) × Reporter :=
  let described := paths.foldlM (fun done path =>
    describeFile system (importDepth system) [] (unresolvedPath path) path done) ({} : Described)
  match described with
  | .ok done =>
    (.ok (descriptorSet done paths withImports), r)
  | .error (.diagnostic d) =>
    (.error (.diagnostic d), if d.code = Code.descriptorFailed then r.report d else r)
  | .error f => (.error f, r)

end Load
end ClientGen
