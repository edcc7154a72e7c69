import ClientGen.Files.Disk

/-! # Include roots

The directories in which interface files are looked for: given ones, those that
the environment lists, and the shared data directories.
-/

namespace ClientGen
namespace Files

abbrev Environment := String → Option String

namespace Environment

/-- Variables of one character that need no braces to end. -/
def isSpecial (c : Char) : Bool := c.isDigit || "*#$@!?-".toList.contains c

def isNameChar (c : Char) : Bool := c == '_' || (c.toNat < 128 && c.isAlphanum)

/-- The name at the start of what follows a dollar sign, and how many characters
it takes. No name in no characters leaves the dollar sign as it is; no name in
some drops them as malformed. -/
def variableName : List Char → String × Nat
  | '\x7b' :: rest =>
    match rest with
    | c :: '\x7d' :: _ =>
      if isSpecial c then (c.toString, 3)
      else if c == '\x7d' then ("", 2) else (c.toString, 3)
    | _ =>
      let name := rest.takeWhile (· != '\x7d')
      if name.length == rest.length then ("", 1)
      else if name.isEmpty then ("", 2)
      else (String.ofList name, name.length + 2)
  | c :: rest =>
    if isSpecial c then (c.toString, 1)
    else
      let name := (c :: rest).takeWhile isNameChar
      (String.ofList name, name.length)
  | [] => ("", 0)

/-- Replaces variables in what is left of a text; the first `skip` characters
belong to a variable that has been replaced. -/
def expandAux (value : String → String) : Nat → List Char → List Char
  | _, [] => []
  | skip + 1, _ :: rest => expandAux value skip rest
  | 0, c :: rest =>
    if c != '$' || rest.isEmpty then c :: expandAux value 0 rest
    else
      let (name, width) := variableName rest
      let shown := if name ≠ "" then (value name).toList else if width > 0 then [] else ['$']
      shown ++ expandAux value width rest

/-- A text with each `$name` and `${name}` replaced by the variable's value. -/
def expand (env : Environment) (s : String) : String :=
  String.ofList (expandAux (fun name => (env name).getD "") 0 s.toList)

def filled? (env : Environment) (name : String) : Option String :=
  (env name).filter (· ≠ "")

def dataDirectories (env : Environment) : List String :=
  let own := match env.filled? "XDG_DATA_HOME" with
    | some dir => [dir]
    | none => ((env.filled? "HOME").map fun home => Path.join [home, ".local", "share"]).toList
  own ++ Text.split ((env.filled? "XDG_DATA_DIRS").getD "/usr/local/share/:/usr/share/") ":"

/-- The include directories beneath the shared data directories. -/
def sharedRoots (env : Environment) : List String :=
  env.dataDirectories.map fun dir => env.expand (Path.join [dir, "idlgen", "include"])

/-- All include directories: given ones, then those that the environment lists,
then shared ones. -/
def includeRoots (env : Environment) (given : List String) : List String :=
  let listed := ((env.filled? "IDLGEN_INCLUDE_PATH").map (Text.split · ":")).getD []
  given ++ listed ++ env.sharedRoots

end Environment

def Disk.absolute (directory path : String) : String :=
  if Path.isRooted path then Path.clean path else Path.join [directory, path]

def Disk.layers (d : Disk) (directory : String) (roots : List String) : List System :=
  roots.map fun root => d.system (Disk.absolute directory root)

end Files
end ClientGen
