import ClientGen.Cli.Flag
import ClientGen.Text.LetterCase

/-! # Commands

The commands of the program, their flags and help texts, and how a command line
chooses among them. The first word that is neither a flag nor the value of one names
the command.
-/

namespace ClientGen
namespace Cli

/-- The commands of the program; `root` is the program itself. -/
inductive Command where
  | root | gen | parse | descriptor | help | completion
deriving DecidableEq, Repr, Inhabited

def program : String := "idlgen"

namespace Options

def logLevel : Flag :=
  { name := "log-level", about := "Log level: debug, info, warn or error.", initial := .text "info" }

def logJson : Flag :=
  { name := "log-json", about := "Write logs as JSON.", initial := .switch false }

def envFile : Flag :=
  { name := "env-file", about := "Environment files to load before reading config.",
    initial := .list [".env"] }

def config : Flag :=
  { name := "config", letter := some 'c', about := "Project config file (JSON, YAML or TOML).",
    initial := .text "idlgen.yaml" }

def watch : Flag :=
  { name := "watch", letter := some 'w',
    about := "Regenerate when the config or IDL files change.", initial := .switch false }

def format : Flag :=
  { name := "format", letter := some 'f', about := "Output format: json or yaml.",
    initial := .text "json" }

def reviseTailComment : Flag :=
  { name := "revise-tail-comment",
    about := "Keep same-line trailing comments with their declaration.", initial := .switch true }

def output : Flag :=
  { name := "output", letter := some 'o', about := "Descriptor set file to write.",
    initial := .text "out.protoset" }

def roots : Flag :=
  { name := "root", about := "Root search paths for imports.", initial := .list ["."] }

def includeImports : Flag :=
  { name := "include-imports", about := "Also include every imported file.",
    initial := .switch false }

def help (name : String) : Flag :=
  { name := "help", letter := some 'h', about := "help for " ++ name, initial := .switch false }

def shared : List Flag := [envFile, logJson, logLevel]

end Options

namespace Command

def name : Command → String
  | root => program
  | gen => "gen"
  | parse => "parse"
  | descriptor => "descriptor"
  | help => "help"
  | completion => "completion"

def summary : Command → String
  | root => "Generate TypeScript API clients from Thrift and Protobuf IDL"
  | gen => "Generate client modules for every configured entry"
  | parse => "Parse one IDL file, or IDL text on stdin, and print the unified document"
  | descriptor => "Write a protobuf FileDescriptorSet for proto files"
  | help => "Help about any command"
  | completion => "Generate the autocompletion script for the specified shell"

def description : Command → String
  | help =>
    "Help provides help for any command in the application.\nSimply type " ++ program ++
      " help [path to command] for full details."
  | completion =>
    "Generate the autocompletion script for " ++ program ++ " for the specified shell.\n" ++
      "See each sub-command's help for details on how to use the generated script."
  | c => c.summary

/-- How a command that does something is written, without the program's name. -/
def synopsis? : Command → Option String
  | gen => some "gen"
  | parse => some "parse <file|->"
  | descriptor => some "descriptor <file.proto>..."
  | help => some "help [command]"
  | _ => none

def path : Command → String
  | root => program
  | c => program ++ " " ++ c.name

def ownFlags : Command → List Flag
  | gen => [Options.config, Options.watch]
  | parse => [Options.format, Options.reviseTailComment]
  | descriptor => [Options.includeImports, Options.output, Options.roots]
  | _ => []

/-- The flags that a command line may hold before help is added to them. -/
def plainFlags (c : Command) : List Flag := c.ownFlags ++ Options.shared

def flags (c : Command) : List Flag := Options.help c.name :: c.plainFlags

/-- The commands that the program knows, in the order in which they are suggested. -/
def known : List Command := [gen, parse, descriptor, help, completion]

def listed : Command → List (String × String)
  | root => [completion, descriptor, gen, help, parse].map fun c => (c.name, c.summary)
  | completion =>
    ["bash", "fish", "powershell", "zsh"].map fun shell =>
      (shell, "Generate the autocompletion script for " ++ shell)
  | _ => []

def sortFlags (flags : List Flag) : List Flag := flags.mergeSort fun a b => decide (a.name ≤ b.name)

/-- How a command is used. Its own flags are given, so that help may be left out. -/
def usage (c : Command) (own : List Flag) : String :=
  let run := (c.synopsis?.map fun s => "\n  " ++ program ++ " " ++ s ++ " [flags]").getD ""
  let choose := if c.listed.isEmpty then "" else "\n  " ++ c.path ++ " [command]"
  let commands := String.join (c.listed.map fun (name, summary) =>
    "\n  " ++ name ++ Text.repeated (11 - name.length) " " ++ " " ++ summary)
  let inherited := if c = root then [] else Options.shared
  "Usage:" ++ run ++ choose ++
    (if c.listed.isEmpty then "" else "\n\nAvailable Commands:" ++ commands) ++
    "\n\nFlags:\n" ++ Flag.helpLines (sortFlags own) ++
    (if inherited.isEmpty then "" else "\n\nGlobal Flags:\n" ++ Flag.helpLines inherited) ++
    (if c.listed.isEmpty then ""
      else "\n\nUse \"" ++ c.path ++ " [command] --help\" for more information about a command.") ++
    "\n"

def helpText (c : Command) : String :=
  let own := if c = root then Options.shared else c.ownFlags
  c.description ++ "\n\n" ++ c.usage (Options.help c.name :: own)

end Command

/-- Whether a word is a flag that takes the next word for its value. Flags that are not
known count as such. -/
def awaitsValue (flags : List Flag) (word : String) : Bool :=
  let switch (p : Flag → Bool) : Bool := ((flags.find? p).map Flag.isSwitch).getD false
  !Text.contains word "=" && match word.toList with
    | '-' :: '-' :: name => !switch fun f => f.name == String.ofList name
    | ['-', c] => c.toNat < 128 && !switch fun f => f.letter == some c
    | _ => false

/-- The words of a command line that are neither flags nor their values. A flag that
awaits a value ends them if less than two words are left. -/
def plainWords (flags : List Flag) : Bool → List String → List String
  | _, [] => []
  | true, _ :: rest => plainWords flags false rest
  | false, word :: rest =>
    if word = "--" then []
    else if awaitsValue flags word then if rest.length ≤ 1 then [] else plainWords flags true rest
    else if word = "" || Text.startsWith word "-" then plainWords flags false rest
    else word :: plainWords flags false rest

/-- A command line without the first plain word that equals `name`. -/
def withoutWord (flags : List Flag) (name : String) : Bool → List String → List String
  | _, [] => []
  | true, value :: rest => value :: withoutWord flags name false rest
  | false, word :: rest =>
    if word = "--" then word :: rest
    else if awaitsValue flags word then word :: withoutWord flags name true rest
    else if word = name then rest
    else word :: withoutWord flags name false rest

/-- The next row of the table of distances: `x` is the character of the row, and `left` is
the distance to the left of the next cell. -/
def distanceRow (x : UInt8) : List UInt8 → List Nat → Nat → List Nat
  | y :: ys, diagonal :: above :: row, left =>
    let here := if x = y then diagonal else min (min left above) diagonal + 1
    here :: distanceRow x ys (above :: row) here
  | _, _, _ => []

/-- The least number of bytes to insert, erase or change to turn one text into another. -/
def editDistance (s t : String) : Nat :=
  let ys := t.toUTF8.toList
  let step (row : List Nat) (x : UInt8) : List Nat :=
    let first := row.headD 0 + 1
    first :: distanceRow x ys row first
  (s.toUTF8.toList.foldl step (List.range (ys.length + 1))).getLastD 0

def suggestions (word : String) : List String :=
  let typed := Text.lower word
  let close (c : Command) : Bool :=
    c ≠ .help && (editDistance typed c.name ≤ 2 || Text.startsWith c.name typed)
  (Command.known.filter close).map Command.name

def unknownCommand (word : String) : String :=
  let hints := suggestions word
  "unknown command " ++ Text.quoted word ++ " for " ++ Text.quoted program ++
    if hints.isEmpty then ""
    else "\n\nDid you mean this?\n" ++ String.join (hints.map fun h => "\t" ++ h ++ "\n")

def Command.find (words : List String) : Except String (Command × List String) :=
  match plainWords Options.shared false words with
  | [] => .ok (.root, words)
  | word :: _ =>
    match Command.known.find? fun c => c.name == word with
    | some c => .ok (c, withoutWord Options.shared word false words)
    | none => .error (unknownCommand word)

end Cli
end ClientGen
