import ClientGen.Config.Switchboard
import ClientGen.Dotenv.Lines
import ClientGen.Files.Roots
import ClientGen.Text.Quoted
import ClientGen.Toml.Reader
import ClientGen.Yaml.Reader

/-! # Project configuration

A project names its interface files and says how clients are generated from them.
It is read from a JSON, YAML, TOML or environment file; variables override the
file. Relative directories start at the directory of the file.
-/

namespace ClientGen
namespace Config

/-- A service and the name it is generated under. -/
structure Alias where
  service : String
  name : String
deriving DecidableEq, Repr, Inhabited

structure Project where
  /-- The directory that interface files are read from. -/
  root : String := ""
  /-- Paths or patterns of interface files by the name of the entry. -/
  entries : Table String := []
  /-- The module that holds the client runtime. -/
  runtime : String := ""
  /-- The directory that files are written to. -/
  output : String := ""
  /-- The plugins to run, in order. -/
  plugins : List String := []
  banner : String := ""
  formatDisabled : Bool := false
  aggregate : Bool := false
  mock : Bool := false
  /-- The file of the mock switchboard, read from the output directory. -/
  mockPath : String := ""
  mockDepth : Int := 0
  aliases : List Alias := []
  /-- Patterns of fields that are left out. -/
  excludedFields : List String := []
  i64 : String := ""
  /-- Further directories of interface files. -/
  includePaths : List String := []
  schema : Bool := false
  allowNull : Bool := false
  enumKeysAsNumbers : Bool := false
  typesDirectory : String := ""
  provider : String := ""
  /-- Whether a comment behind a declaration belongs to it. -/
  revise : Bool := false
deriving DecidableEq, Repr, Inhabited

def pluginNames : List String := ["alias", "comment", "fieldfilter", "format", "mockconfig"]

def defaults : List (String × Setting) :=
  [("idl_root", .text "."), ("output", .text "./src/api"), ("common_code_path", .text "@/api/common"),
    ("plugins", .list (pluginNames.map .text)),
    ("formatter", .map [("banner",
      .text "/* eslint-disable */\n// Code generated by idlgen. DO NOT EDIT.")]),
    ("mock", .map [("config_path", .text "api.dev.local.json"), ("max_depth", .int 3)]),
    ("i64", .text "number"), ("revise_tail_comment", .bool true)]

def dotenvSettings? (environment? : Files.Environment) (content : String) :
    Option (List (String × Setting)) :=
  (Dotenv.assignments? environment? content).map fun vars => vars.map fun (k, v) => (k, .text v)

def fileSettings? (environment? : Files.Environment) (path content : String) : Option (List (String × Setting)) :=
  match Path.ext path with
  | ".json" => jsonSettings? content
  | ".yaml" => Yaml.read? content
  | ".yml" => Yaml.read? content
  | ".toml" => Toml.read? content
  | ".env" => dotenvSettings? environment? content
  | ".dotenv" => dotenvSettings? environment? content
  | _ => none

def alias? (s : Setting) : Option Alias := do
  let entries ← s.asEntries?
  return { service := ← (setting entries "service").asText?, name := ← (setting entries "name").asText? }

namespace Project

/-- The project of some settings, unless one is of the wrong kind. -/
def ofSettings? (settings : List (String × Setting)) : Option Project := do
  let text (key : String) : Option String := (setting settings key).asText?
  let flag (key : String) : Option Bool := (setting settings key).asBool?
  let formatter ← (setting settings "formatter").asEntries?
  let mock ← (setting settings "mock").asEntries?
  return { root := ← text "idl_root", entries := ← (setting settings "entries").asTable?,
           runtime := ← text "common_code_path", output := ← text "output",
           plugins := ← (setting settings "plugins").asTexts?,
           banner := ← (setting formatter "banner").asText?,
           formatDisabled := ← (setting formatter "disabled").asBool?,
           aggregate := ← flag "aggregation_export", mock := ← (setting mock "enabled").asBool?,
           mockPath := ← (setting mock "config_path").asText?,
           mockDepth := ← (setting mock "max_depth").asInt?,
           aliases := ← (setting settings "aliases").asItems.mapM alias?,
           excludedFields := ← (setting settings "exclude_fields").asTexts?, i64 := ← text "i64",
           includePaths := ← (setting settings "include_paths").asTexts?,
           schema := ← flag "gen_schema", allowNull := ← flag "allow_null_for_optional",
           enumKeysAsNumbers := ← flag "map_enum_key_as_number",
           typesDirectory := ← text "patch_types_output", provider := ← text "param_provider",
           revise := ← flag "revise_tail_comment" }

/-- The project with its directories read from `base`. Empty ones stay empty. -/
def locate (base : String) (p : Project) : Project :=
  let absolute (path : String) : String :=
    if path = "" ∨ Path.isRooted path then path else Path.join [base, path]
  { p with root := absolute p.root, output := absolute p.output,
           includePaths := p.includePaths.map absolute }

/-- The first setting that makes a project unusable: what is wrong, and hints. -/
def complaint? (p : Project) : Option (String × List String) :=
  if p.entries.isEmpty then
    some ("no entries configured",
      ["add an entries map of name to IDL path, e.g. entries: \x7bitem: item/item.thrift\x7d"])
  else if p.output = "" then some ("no output directory configured", [])
  else if ¬ ["", "number", "string"].contains p.i64 then
    some ("i64 must be number or string, got " ++ Text.quoted p.i64, [])
  else match p.plugins.find? fun name => !pluginNames.contains name with
    | some name => some ("unknown plugin " ++ Text.quoted name, [])
    | none =>
      if p.aliases.any fun a => a.service = "" || a.name = "" then
        some ("aliases need both service and name", [])
      else none

def read (environment? : Files.Environment) (path : String) (content : Option String) :
    Except Trouble Project :=
  match content.bind (fileSettings? environment? path) with
  | none => .error .unreadable
  | some entries =>
    let layers : Layers := { environment?, namespaceName := some "IDLGEN",
                             file := Setting.lowerEntries entries, defaults }
    match ofSettings? layers.settings with
    | none => .error .undecodable
    | some p =>
      let p := p.locate (Path.dir path)
      match p.complaint? with
      | some (message, hints) => .error (.invalid message hints)
      | none => .ok p

end Project
end Config
end ClientGen
