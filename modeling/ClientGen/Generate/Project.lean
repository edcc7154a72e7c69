import ClientGen.Config.Project
import ClientGen.Generate.Basic
import ClientGen.Pipeline.Stage
import ClientGen.Plugin.Mocks
import ClientGen.Plugin.Rewriting
import ClientGen.Typescript.Format

/-! # Generating a project

The options and plugins that a project asks for. The format plugin is one of its own:
every file is tidied before it is written.
-/

namespace ClientGen

namespace Plugin

open Pipeline

/-- Tidies files and puts a banner in front. -/
def formatting (banner : String) : Plugin Stage where
  name := "format"
  registrations :=
    [(Stage.writeFile fun c r =>
      (.ok { c with content := Typescript.format c.filename c.content banner }, r)).registration
      "ON" Stage.late]

end Plugin

namespace Generate

open Pipeline
open Source (Failure)
open Config (Project)

def priorOn (disk : Files.Disk) (path : String) : Mock.Prior :=
  match disk.look path with
  | .ok (.file text _) => Config.prior (some text)
  | .error .absent => .absent
  | _ => .unreadable

def switchesOf (slot : Nat) (disk : Files.Disk) (p : Project) : Except Failure (Plugin Stage) :=
  let path := if Path.isRooted p.mockPath then p.mockPath else Path.join [p.output, p.mockPath]
  match Path.relative? p.output path with
  | some target => .ok (Plugin.switches slot (priorOn disk path) target)
  | none =>
    .error (.plain ("mock config path: Rel: can't make " ++ path ++ " relative to " ++ p.output))

/-- The plugin of a name, if the project wants it at all. `slot` tells plugins of
the same kind apart. -/
def pluginOf (disk : Files.Disk) (p : Project) (name : String) (slot : Nat) :
    Except Failure (Option (Plugin Stage)) :=
  match name with
  | "alias" =>
    .ok (some (Plugin.aliases slot (Table.ofList (p.aliases.map fun a => (a.service, a.name)))))
  | "comment" => .ok (some Plugin.comments)
  | "fieldfilter" => (Plugin.fieldFilter p.excludedFields).map some
  | "format" => .ok (if p.formatDisabled then none else some (Plugin.formatting p.banner))
  | "mockconfig" =>
    if p.mock ∧ p.mockPath ≠ "" then (switchesOf slot disk p).map some else .ok none
  | _ => .error (.plain ("unknown plugin " ++ Text.quoted name))

def Options.ofProject (disk : Files.Disk) (p : Project) : Except Failure Options := do
  let plugins ← p.plugins.zipIdx.mapM fun (name, slot) => pluginOf disk p name slot
  return { entries := p.entries, runtime := p.runtime, allowNull := p.allowNull,
           enumKeysAsNumbers := p.enumKeysAsNumbers, schema := p.schema, mock := p.mock,
           typesDirectory := p.typesDirectory, aggregate := p.aggregate, i64 := p.i64,
           provider := p.provider, mockDepth := p.mockDepth, revise := p.revise,
           plugins := plugins.filterMap id }

end Generate

end ClientGen
