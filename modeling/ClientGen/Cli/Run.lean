import ClientGen.Cli.Command
import ClientGen.Descriptor.Wire
import ClientGen.Document.View
import ClientGen.Dotenv.Load
import ClientGen.Generate.Project
import ClientGen.Json.Basic
import ClientGen.Json.Fault
import ClientGen.Load.Describe
import ClientGen.Pipeline.Run
import ClientGen.Text.Basic
import ClientGen.Text.LetterCase
import ClientGen.Yaml.Writer

/-! # Running a command line

A command line as a function of the world that it finds: files, environment and
input. It gives what is printed, the exit code and the files that are left.
-/

namespace ClientGen

/-! ## Amounts of bytes

An amount of bytes in the largest unit of a thousand that it reaches, with one
decimal below ten.
-/

namespace Number

def byteUnits : List (String × Nat) :=
  [("EB", 1000000000000000000), ("PB", 1000000000000000), ("TB", 1000000000000), ("GB", 1000000000),
    ("MB", 1000000), ("kB", 1000)]

/-- A number of tenths rounded to a whole number; a half goes to the even one. -/
def wholeOfTenths (tenths : Nat) : Nat :=
  let whole := tenths / 10
  if tenths % 10 > 5 || (tenths % 10 == 5 && whole % 2 == 1) then whole + 1 else whole

def byteSize (n : Nat) : String :=
  match byteUnits.find? fun (_, size) => size ≤ n with
  | none => Text.ofNat n ++ " B"
  | some (unit, size) =>
    let tenths := (n * 10 + size / 2) / size
    if tenths < 100 then Text.ofNat (tenths / 10) ++ "." ++ Text.ofNat (tenths % 10) ++ " " ++ unit
    else Text.ofNat (wholeOfTenths tenths) ++ " " ++ unit

end Number

namespace Cli

open Files (Disk Environment)
open Config (Project Trouble)
open Pipeline (Warning)

/-! ## Log lines

Warnings as lines of a log: the level, the message and the values it names.
-/

/-- Whether warnings are logged at a level. A level that is not known is taken for one
at which they are. -/
def showsWarnings (level : String) : Bool :=
  let level := Text.lower (Text.trim level)
  !(["error", "dpanic", "panic", "fatal"].contains level)

/-- How one character stands in a value of a log line. -/
def logChar (c : Char) : String :=
  match c with
  | '"' => "\\\""
  | '\\' => "\\\\"
  | '\n' => "\\n"
  | '\r' => "\\r"
  | '\t' => "\\t"
  | c => if c.toNat < 32 then "\\u" ++ Text.hexPadded 4 c.toNat else String.ofList [c]

def logText (s : String) : String := "\"" ++ String.join (s.toList.map logChar) ++ "\""

def logFields (colon comma : String) (fields : Table String) : String :=
  comma.intercalate (fields.map fun (k, v) => logText k ++ colon ++ logText v)

def logLine (json : Bool) (w : Warning) : String :=
  if json then
    "\x7b" ++ logFields ":" "," ([("level", "warn"), ("msg", w.message)] ++ w.fields) ++ "\x7d\n"
  else "WARN\t" ++ w.message ++
    (if w.fields.isEmpty then "" else "\t\x7b" ++ logFields ": " ", " w.fields ++ "\x7d") ++ "\n"

/-! ## Commands -/

/-- What a command line finds. -/
structure World where
  /-- The directory that relative paths start from. -/
  directory : String
  environment : Table String := []
  disk : Disk := {}
  input : String := ""
deriving Inhabited

/-- What a command line leaves behind. -/
structure Outcome where
  code : Nat := 0
  stdout : String := ""
  stderr : String := ""
  disk : Disk := {}
  /-- Files that hold no text, by absolute path. -/
  binaries : Table (List UInt8) := []
deriving Inhabited

namespace World

def lookup (w : World) : Environment := w.environment.find?

def absolute (w : World) (path : String) : String := Disk.absolute w.directory path

def sources (w : World) (roots : List String) : Files.System :=
  .firstOf (w.disk.layers w.directory (w.lookup.includeRoots roots))

def fail (w : World) (message : String) (hints : List String := []) : Outcome :=
  { code := 1, disk := w.disk,
    stderr := message ++ "\n" ++ String.join (hints.map fun h => "hint: " ++ h ++ "\n") }

def print (w : World) (text : String) : Outcome := { stdout := text, disk := w.disk }

end World

def openFault (path : String) : Files.Cause → String
  | .absent => "open " ++ path ++ ": no such file or directory"
  | cause => "open " ++ path ++ ": " ++ cause.text

/-- The report about written files. -/
def wroteLine (count bytes : Nat) (place : String) : String :=
  "wrote " ++ Text.ofNat count ++ " files (" ++ Number.byteSize bytes ++ ") to " ++ place ++ "\n"

def configFormats : List String := ["json", "toml", "yaml", "yml", "dotenv", "env"]

def kindOfJson : Option Json → String
  | some (.array _) => "array"
  | some (.string _) => "string"
  | some (.bool _) => "bool"
  | _ => "number"

/-- The words for what is wrong with the text of a configuration file. -/
def malformed (format content : String) : String :=
  let cause := match format, Json.fault? content with
    | "json", some fault => fault.text
    | "json", none =>
      "json: cannot unmarshal " ++ kindOfJson (Json.read? content) ++
        " into Go value of type map[string]interface \x7b\x7d"
    | _, _ => "malformed " ++ format
  "While parsing config: " ++ cause

/-- The words for why a configuration file cannot be read. -/
def unreadable (w : World) (path : String) : String :=
  let format := Text.dropStart (Path.ext path) "."
  if !configFormats.contains format then "Unsupported Config Type " ++ Text.quoted format
  else match w.disk.look (w.absolute path) with
    | .error cause => openFault path cause
    | .ok (.directory _) => "read " ++ path ++ ": is a directory"
    | .ok (.file content _) => malformed format content

/-- Generates the project of a configuration file. -/
def runGen (w : World) (g : Given) : Outcome :=
  let path := Options.config.text g
  match Project.read w.lookup (w.absolute path) (w.disk.read? (w.absolute path)) with
  | .error .unreadable => w.fail ("reading config " ++ path ++ ": " ++ unreadable w path)
  | .error .undecodable => w.fail ("unmarshalling config " ++ path ++ ": decoding failed")
  | .error (.invalid message hints) => w.fail message hints
  | .ok p =>
    match Generate.Options.ofProject w.disk p with
    | .error f => w.fail f.message
    | .ok options =>
      let origin : Generate.Origin :=
        { system := w.sources (p.root :: p.includePaths), paths := w.disk.pathsBeneath p.root }
      let sink : Generate.Sink Disk := .ofWrite fun disk path text => disk.write p.output path text
      let out := Generate.generate options origin (some sink) w.disk
      let log := if showsWarnings (Options.logLevel.text g) then
          String.join (out.warnings.map (logLine (Options.logJson.isOn g)))
        else ""
      let w := { w with disk := out.sink }
      let done := match out.result with
        | .error f => w.fail f.message
        | .ok written => w.print (wroteLine written.paths.length written.bytes p.output)
      { done with stderr := log ++ done.stderr }

/-- Prints the document of an interface file or text. -/
def runParse (w : World) (g : Given) (source : String) : Outcome :=
  let source := if source = "-" then w.input else source
  let revise := Options.reviseTailComment.isOn g
  match (Load.compileSource (w.disk.system "/") w.directory source revise {}).1 with
  | .error f => w.fail f.message
  | .ok none => w.fail Source.Failure.absentDocument.message
  | .ok (some d) =>
    match Options.format.text g with
    | "json" => w.print (((ViewStyle.json.document d).layout .escaped).indented "" "  " ++ "\n")
    | "yaml" => w.print (Yaml.write (ViewStyle.yaml.document d))
    | format => w.fail ("unknown format " ++ Text.quoted format ++ ", want json or yaml")

/-- Why a file cannot be written at a path, if it cannot. -/
def writeFault? (w : World) (path : String) : Option String :=
  if w.disk.isDirectory (w.absolute path) then some (openFault path .isDirectory)
  else match w.disk.look (Path.dir (w.absolute path)) with
    | .ok (.directory _) => none
    | .ok (.file _ _) => some (openFault path .notDirectory)
    | .error cause => some (openFault path cause)

def runDescriptor (w : World) (g : Given) : Outcome :=
  let system := w.sources (Options.roots.list g)
  match (Load.describe system g.operands (Options.includeImports.isOn g) {}).1 with
  | .error f => w.fail f.message
  | .ok files =>
    let output := Options.output.text g
    let bytes := Descriptor.Wire.fileSet files
    match writeFault? w output with
    | some fault => w.fail ("writing " ++ output ++ ": " ++ fault)
    | none =>
      { w.print (wroteLine files.length bytes.length output) with
        binaries := [(w.absolute output, bytes)] }

def runHelp (w : World) (g : Given) : Outcome :=
  match Command.find g.operands with
  | .ok (c, _) => w.print c.helpText
  | .error _ =>
    let topics := " ".intercalate (g.operands.map fun t => "\x60" ++ t ++ "\x60")
    { stderr := "Unknown help topic [" ++ topics ++ "]\n" ++ Command.root.usage Options.shared,
      disk := w.disk }

def miscounted? (c : Command) (operands : List String) : Option String :=
  let count := operands.length
  match c with
  | .parse => if count = 1 then none else some ("accepts 1 arg(s), received " ++ Text.ofNat count)
  | .descriptor => if count = 0 then some "requires at least 1 arg(s), only received 0" else none
  | _ => none

def runCommand (w : World) (g : Given) : Command → Outcome
  | .gen => runGen w g
  | .parse => runParse w g (g.operands.headD "")
  | .descriptor => runDescriptor w g
  | .help => runHelp w g
  | c => w.print c.helpText

def run (w : World) (words : List String) : Outcome :=
  match Command.find words with
  | .error message => w.fail message
  | .ok (c, words) =>
    match Given.ofWords c.flags words with
    | .error misuse => w.fail misuse.message
    | .ok g =>
      if (Options.help c.name).isOn g || c.synopsis?.isNone then w.print c.helpText
      else match miscounted? c g.operands with
        | some message => w.fail message
        | none =>
          let paths := (Options.envFile.list g).filter (· ≠ "")
          match Dotenv.load w.disk w.directory paths w.environment with
          | (some fault, _) => w.fail fault
          | (none, environment) => runCommand { w with environment } g c

end Cli

end ClientGen
