import ClientGen.Dotenv.Reader
import ClientGen.Files.Roots

/-! # Loading environment files

Files add their variables to an environment one after the other. Variables that
are set keep their values, and files that are absent are passed over.
-/

namespace ClientGen
namespace Dotenv

open Files (Disk Fault)

/-- Whether an environment can hold a variable: its name is neither empty nor
holds an equals sign, and neither text holds a null character. -/
def isHoldable (name value : String) : Bool :=
  let null := Char.ofNat 0
  name != "" && !(name.toList.any fun c => c == '=' || c == null) && !value.toList.contains null

/-- The environment with the variables of a file that it does not set and can
hold. -/
def extend (env vars : Table String) : Table String :=
  vars.foldl (fun env (name, value) =>
    if Table.has env name || !isHoldable name value then env else env.insert name value) env

/-- The text of a file that is there, or why it cannot be read. -/
def content? (disk : Disk) (directory path : String) : Except Fault (Option String) :=
  match disk.look (Disk.absolute directory path) with
  | .ok (.file text _) => .ok (some text)
  | .ok (.directory _) => .error (.on "read" path .isDirectory)
  | .error .absent => .ok none
  | .error cause => .error (.on "open" path cause)

/-- Loads the files at some paths, read from a directory, into an environment. The
first that cannot be read ends the loading, with the words for why. -/
def load (disk : Disk) (directory : String) : List String → Table String → Option String × Table String
  | [], env => (none, env)
  | path :: rest, env =>
    match content? disk directory path with
    | .error fault => (some ("loading " ++ path ++ ": " ++ fault.text), env)
    | .ok none => load disk directory rest env
    | .ok (some content) =>
      match read content with
      | .error e => (some ("loading " ++ path ++ ": " ++ e.text), env)
      | .ok vars => load disk directory rest (extend env vars)

end Dotenv
end ClientGen
