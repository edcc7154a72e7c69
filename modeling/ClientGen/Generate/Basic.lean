import ClientGen.Files.Memory
import ClientGen.Generate.Entries
import ClientGen.Generate.Mocks
import ClientGen.Generate.Schema
import ClientGen.Load.Closure
import ClientGen.Pipeline.Stage
import ClientGen.Plugin.Methods
import ClientGen.Plugin.Mocks
import ClientGen.Plugin.Rewriting

/-! # Generating client code

From the options of a run to the files that it writes: the entries are loaded,
plugins see all documents, each entry is rendered into modules, and the modules
are written in the order of their paths.
-/

namespace ClientGen
namespace Generate

/-! ## What a run is asked for

The options of a run, where it reads interface files and where it writes what it
generates.
-/

open Pipeline
open Source (Failure)

/-- The options of a run. Empty texts and a depth of zero stand for the defaults. -/
structure Options where
  /-- Paths or patterns of interface files by the name of the entry. -/
  entries : Table String := []
  /-- The module that holds the client runtime. -/
  runtime : String := ""
  allowNull : Bool := false
  enumKeysAsNumbers : Bool := false
  schema : Bool := false
  mock : Bool := false
  /-- Leaves out the service modules. -/
  skipClient : Bool := false
  /-- The directory that types modules are moved to. -/
  typesDirectory : String := ""
  /-- Whether one index gathers all entries. -/
  aggregate : Bool := false
  i64 : String := ""
  provider : String := ""
  mockDepth : Int := 0
  /-- Whether a comment behind a declaration belongs to it. -/
  revise : Bool := true
  /-- The plugins that run after the built-in stages. -/
  plugins : List (Plugin Stage) := []
deriving Inhabited

namespace Options

def runtimeModule (o : Options) : String := if o.runtime = "" then "@/api/common" else o.runtime

def integerType (o : Options) : String := if o.i64 = "" then "number" else o.i64

def sampleDepth (o : Options) : Nat := if o.mockDepth ≤ 0 then 3 else o.mockDepth.toNat

end Options

/-- Where interface files are read from: a file system, and the paths that
patterns are matched against. -/
structure Origin where
  system : Files.System
  paths : List String

/-- Where generated files are written to, as operations on a state `σ`. -/
structure Sink (σ : Type) where
  write : String → String → σ → Except Failure Unit × σ

/-- The sink of operations that may fail and then change nothing. -/
def Sink.ofWrite {σ : Type} (write : σ → String → String → Except Failure σ) : Sink σ where
  write path text s :=
    match write s path text with
    | .ok s => (.ok (), s)
    | .error f => (.error f, s)

/-- Writes to the first of several memories. -/
def Sink.memories : Sink (List Files.Memory) := .ofWrite Files.Memory.writeFirst

/-! ## From entries to files -/

open Pipeline
open Source (Failure Code Diagnostic Reporter)
open Typescript (Declaration Export ServiceModule)

/-- The module path of a file as another file imports it. -/
def importPath (source target : String) : String :=
  let module := Path.stem target
  match Path.relative? (Path.dir source) module with
  | some path => if Text.startsWith path "." then path else "./" ++ path
  | none => "./" ++ Path.base module

/-- What all entries of a run are rendered with. -/
structure Job where
  options : Options
  bus : Bus Stage
  registry : Registry
  docs : Table Document

def change (f : Run → Run) : Work Unit := fun r => (.ok (), f r)

def put (path content : String) : Work Unit := change (·.put path content)

def lift {α : Type} (x : Except Failure α) : Work α := fun r => (x, r)

def within {α : Type} (label : String) (step : Work α) : Work α := fun r =>
  let (x, r) := step r
  (Failure.within label x, r)

namespace Job

def style (j : Job) : TypeStyle :=
  { nullable := j.options.allowNull, enumKeysAsNumbers := j.options.enumKeysAsNumbers }

def typesPath (j : Job) (e : Entry) : String :=
  Path.join [j.options.typesDirectory, e.name, "types.ts"]

def renderTypes (j : Job) (e : Entry) (scope : List Document) : Work Unit := do
  let (declarations, warnings) := typeDeclarations j.registry j.style scope
  change fun r => { r with warnings := r.warnings ++ warnings }
  put (j.typesPath e) (Declaration.renderAll (← lift declarations))

def renderClient (j : Job) (e : Entry) (path : String) (c : FileContext) : Work Unit := do
  let module : ServiceModule :=
    { runtime := j.options.runtimeModule, types := importPath path (j.typesPath e),
      imports := c.imports, methods := c.methods }
  put path (← within ("service " ++ c.service.name) (lift (module.render j.options.provider)))

def renderMocks (j : Job) (d : Document) (path : String) (c : FileContext) : Work Unit := do
  let sampler : Sampler :=
    { bus := j.bus, symbols := j.registry.symbols, maxDepth := j.options.sampleDepth }
  let samples ← within ("mock " ++ c.service.name) (sampler.sampleMethods d c.service c.methods)
  put path (← lift (Typescript.renderMocks samples))

/-- Renders the modules of a service and gives those that the index exports. A
service without methods has none. -/
def renderService (j : Job) (e : Entry) (d : Document) (s : Service) : Work (List Export) := do
  let c ← (fun r => Stage.runGenerateFile j.bus { entry := e.name, document := d, service := s } r)
  if c.methods.isEmpty then return []
  let base := Path.join [e.name, Text.kebab c.service.name]
  let client := base ++ ".ts"
  if !j.options.skipClient then j.renderClient e client c
  if j.options.mock then j.renderMocks d (base ++ ".mock.ts") c
  if j.options.skipClient then return []
  return [{ module := importPath (Path.join [e.name, "index.ts"]) client }]

def renderEntry (j : Job) (e : Entry) (d : Document) : Work Unit := do
  let scope := reachable j.docs d
  j.renderTypes e scope
  if j.options.schema then put (Path.join [e.name, "schema.json"]) (schemaText j.registry scope)
  let index := Path.join [e.name, "index.ts"]
  let exports ← d.services.mapM (j.renderService e d)
  put index (Typescript.renderIndex
    ({ module := importPath index (j.typesPath e) } :: exports.flatten))

def entryExport (e : Entry) : Export :=
  { module := "./" ++ e.name, name := Text.lowerCamel (Text.replace e.name "/" "_") }

def renderEntries (j : Job) (entries : List Entry) : Work Unit := do
  for e in entries do
    match j.docs.find? e.path with
    | none => throw (.plain ("entry " ++ e.name ++ ": " ++ e.path ++ " was not parsed"))
    | some d => within ("entry " ++ e.name) (j.renderEntry e d)
  if j.options.aggregate then put "index.ts" (Typescript.renderIndex (entries.map entryExport))

end Job

/-- What a run wrote: the paths in the order of writing, and the number of bytes. -/
structure Written where
  paths : List String := []
  bytes : Nat := 0
deriving DecidableEq, Repr, Inhabited

/-- The result of a run, the state of its sink and the warnings. -/
structure Outcome (σ : Type) where
  result : Except Failure Written
  sink : σ
  warnings : List Warning := []

/-- Writes files one after the other, each through the stage of written files. -/
def writeAll {σ : Type} (bus : Bus Stage) (sink : Sink σ) :
    List (String × String) → Written → Run → σ → Except Failure Written × Run × σ
  | [], done, r, s => (.ok done, r, s)
  | (path, content) :: rest, done, r, s =>
    let (staged, r) :=
      if bus.has Stage.writeFileHook then
        Stage.runWriteFile bus { filename := path, content } r
      else (.ok { filename := path, content }, r)
    match staged with
    | .error f => (.error f, r, s)
    | .ok c =>
      match sink.write path c.content s with
      | (.error f, s) => (.error (.context ("write " ++ path) f), r, s)
      | (.ok (), s) =>
        writeAll bus sink rest
          { paths := done.paths ++ [path], bytes := done.bytes + c.content.utf8ByteSize } r s

def stages (o : Options) : List (Plugin Stage) :=
  [Plugin.includes, Plugin.methods o.enumKeysAsNumbers] ++
    (if o.mock then [Plugin.samples] else []) ++ o.plugins

def includeWarnings (loaded : Load.Loaded) : List Warning :=
  loaded.unresolved.map fun u =>
    { message := "unresolved include", fields := [("file", u.file), ("include", u.path)] }

/-- The warnings about names of types that mean nothing. -/
def typeWarnings (r : Reporter) : List Warning :=
  (r.reported.filter (·.code == Code.unresolvedType)).map fun d =>
    { message := "unresolved type", fields := [("error", d.text)] }

/-- Loads the entries and renders everything that is to be written. -/
def render (o : Options) (origin : Origin) (types : Typescript.Mapper) (bus : Bus Stage) :
    Work Unit := do
  let entries ← lift (resolveEntries origin.paths o.entries)
  let loader : Load.Loader := { system := origin.system, revise := o.revise }
  let loaded := loader.loadAll Load.defaultCacheSize (entries.map (·.path)) (Reporter.withHarmless [])
  change fun r => { r with warnings := r.warnings ++ includeWarnings loaded }
  let docs ← lift loaded.docs
  change fun r => { r with warnings := r.warnings ++ typeWarnings loaded.reporter }
  let c ← (fun r => Stage.runParseEntry bus
    { documents := docs, entries := Table.ofList (entries.map fun e => (e.name, e.path)) } r)
  let output ← match c.output with
    | some output => pure output
    | none => throw (.plain "PARSE_ENTRY dropped the output set")
  let registry : Registry := { types, symbols := Symbols.ofDocs c.documents }
  change fun r => { r with output, registry := some registry }
  let job : Job := { options := o, bus, registry, docs := registry.symbols.docs }
  job.renderEntries entries

def prepare (o : Options) : Except Failure (Typescript.Mapper × Bus Stage) := do
  let types ← ({} : Typescript.Mapper).setI64 o.integerType
  let bus ← Bus.ofPlugins (stages o)
  return (types, bus)

/-- Generates the code of a run into a sink. Everything is rendered before the
first file is written. -/
def generate {σ : Type} (o : Options) (origin : Origin) (sink : Option (Sink σ)) (s : σ) :
    Outcome σ :=
  if o.entries.isEmpty then { result := .error (.plain "no entries to generate"), sink := s }
  else
    match sink with
    | none => { result := .error (.plain "no output directory"), sink := s }
    | some sink =>
      match prepare o with
      | .error f => { result := .error f, sink := s }
      | .ok (types, bus) =>
        match render o origin types bus { registry := some { types } } with
        | (.error f, r) => { result := .error f, sink := s, warnings := r.warnings }
        | (.ok (), r) =>
          let (result, r, s) := writeAll bus sink r.output.sorted {} r s
          { result, sink := s, warnings := r.warnings }

end Generate
end ClientGen
