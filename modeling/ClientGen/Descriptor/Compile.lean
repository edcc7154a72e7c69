import ClientGen.Descriptor.Grammar
import ClientGen.Descriptor.Rules
import ClientGen.Descriptor.Spelling
import ClientGen.Descriptor.Standard

/-! # Describing one schema file

A file is described after those that it imports. Its syntax and the rules within
it are checked first, then its names against those of all files, then its options.
-/

namespace ClientGen
namespace Descriptor

structure Compiled where
  outline : Outline
  descriptor : FileDescriptor
deriving Repr, Inhabited

/-- The files described so far, each after those that it imports, and what they
declare. -/
structure Described where
  files : Table Compiled := []
  registry : Registry := {}
deriving Repr, Inhabited

def readOutline (path source : String) (isStandard : Bool) : Checked Outline := do
  match parse source with
  | .error place => complain place "syntax error"
  | .ok tree =>
    let outline ← outlineOf path tree
    let outline := { outline with isStandard }
    checkOutline outline
    return outline

namespace Described

/-- The names that a file offers to those that import it: its own, and those of
files that it imports for others. `depth` bounds the way through such files. -/
def offered (d : Described) : Nat → String → List Dictionary
  | 0, _ => []
  | depth + 1, path =>
    match d.files.find? path with
    | none => []
    | some file =>
      let through := file.outline.body.imports.filter fun i => i.reach == .reexported
      file.outline.dictionary :: through.flatMap fun i => d.offered depth i.path.text

def view (d : Described) (o : Outline) : View :=
  { own := o.dictionary,
    reached := o.body.imports.flatMap fun i => d.offered (d.files.length + 1) i.path.text }

/-- Adds the declarations of a described file to the registry, after those of the
files that it imports. `depth` bounds the way through imports. -/
def register (d : Described) : Nat → Registry → String → Except Refusal Registry
  | 0, r, _ => .ok r
  | depth + 1, r, path =>
    match d.files.find? path with
    | none => .ok r
    | some file => do
      if r.paths.contains path then return r
      let r ← file.outline.body.imports.foldlM (fun r i => d.register depth r i.path.text) r
      r.addFile file.outline

def about {α : Type} (o : Outline) (checked : Checked α) : Except Refusal α :=
  checked.mapError fun c => ⟨o.path, c⟩

/-- Describes a file whose imports are described. The declarations of a standard
file count once another file imports it. -/
def link (d : Described) (o : Outline) : Except Refusal (View × Registry) := do
  let r ← o.body.imports.foldlM (fun r i => d.register (d.files.length + 1) r i.path.text) d.registry
  let r ← if o.isStandard then pure r else r.addFile o
  let view := d.view o
  let r ← about o (view.checkNames o r)
  return (view, r)

end Described

def descriptorOfDescriptors : Option FileDescriptor := do
  let o ← (readOutline descriptorPath descriptorFile true).toOption
  return (({} : Described).view o).file o

/-- The types that the options of a file are checked against. -/
def Described.types (d : Described) (own : FileDescriptor) : Types :=
  let known := own :: d.files.map fun (_, file) => file.descriptor
  let standard := if d.files.has descriptorPath || own.name = descriptorPath then []
    else descriptorOfDescriptors.toList
  Types.ofFiles (standard ++ known)

/-- The files with one more, whose imports are among them. -/
def Described.add (d : Described) (o : Outline) : Except Refusal Described := do
  let (view, registry) ← d.link o
  let descriptor := view.file o
  unless o.isStandard || o.options.isEmpty do
    about o (Interpreter.interpretFile { types := d.types descriptor, view } o)
  about o (checkSpelling view o)
  let descriptor := { descriptor with isExtended := o.isExtended }
  return { files := d.files.insert o.path ⟨o, descriptor⟩, registry }

end Descriptor
end ClientGen
