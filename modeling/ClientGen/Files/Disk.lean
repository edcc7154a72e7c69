import ClientGen.Files.Tree

/-! # A disk

Files and directories by the name of their absolute path. A directory is there when it was made
or when something stands beneath it. No name holds NUL, and only texts are opened.
-/

namespace ClientGen
namespace Files

open Source (Failure)

/-- Texts by cleaned absolute path, and directories that were made. -/
structure Disk where
  files : Table String := []
  directories : List String := []
deriving Repr, Inhabited

namespace Disk

/-- What leads a path to the things beneath a directory. -/
def lead (dir : String) : String := Text.dropEnd dir "/" ++ "/"

def entries (d : Disk) : List (String × Bool) :=
  d.files.map (fun (p, _) => (p, false)) ++ d.directories.map fun p => (p, true)

def isDirectory (d : Disk) (path : String) : Bool :=
  path == "/" || d.directories.contains path ||
    d.entries.any fun (p, _) => Text.startsWith p (lead path)

def shown (d : Disk) : Table String := d.files.map fun (p, text) => (Name.shown p, text)

def read? (d : Disk) (path : String) : Option String := d.files.find? (Path.clean path)

/-- The proper ancestors of an absolute path, outermost first. -/
def ancestors (path : String) : List String :=
  let segments := Path.cleanedSegments path
  (List.range segments.length).map fun n => Path.ofSegments true (segments.take n)

/-- The name directly beneath a directory through which a path goes. -/
def childOf? (dir : String) (entry : String × Bool) : Option Child := do
  let rest ← Text.dropStart? (lead dir).toList entry.1.toList
  match Text.split (String.ofList rest) "/" with
  | [] => none
  | [name] => if name = "" then none else some ⟨name, entry.2⟩
  | name :: _ => some ⟨name, true⟩

/-- The names directly beneath a directory. -/
def children (d : Disk) (dir : String) : List Child := distinct (d.entries.filterMap (childOf? dir))

def pathsBeneath (d : Disk) (dir : String) : List String :=
  let above := d.entries.flatMap fun (p, directory) => if directory then [p] else p :: ancestors p
  (distinct above).filterMap fun p =>
    (Text.dropStart? (lead dir).toList p.toList).map fun rest => "/" ++ String.ofList rest

/-- Whether a name is longer than the 255 bytes that a directory takes. -/
def isLongName (name : String) : Bool := 255 < Name.size name

def isLongPath (path : String) : Bool := 4096 ≤ Name.size path

/-- What stops a walk to a path, name by name from the root. -/
def obstacle? (d : Disk) (path : String) : Option Cause :=
  if isLongPath path then some .tooLong
  else
    let names := Path.cleanedSegments path
    (List.range names.length).findSome? fun n =>
      let next := Path.ofSegments true (names.take (n + 1))
      if d.files.has (Path.ofSegments true (names.take n)) then some .notDirectory
      else if names[n]?.any isLongName then some .tooLong
      else if d.files.has next || d.isDirectory next then none
      else some .absent

def look (d : Disk) (path : String) : Except Cause Entry :=
  match d.files.find? path with
  | some text => .ok (.file text none)
  | none =>
    if d.isDirectory path then .ok (.directory (.ok (d.children path)))
    else .error ((d.obstacle? path).getD .absent)

/-- The tree beneath a directory of the disk. A file in its place has no tree. -/
def tree (d : Disk) (root : String) : Tree := fun p =>
  if !Name.isText p then .error (.on "open" (Name.shown p) .invalid)
  else match d.look (Path.join [root, p]) with
    | .ok (.file text interruption) =>
      if p = "." then .error (.on "open" p .notDirectory)
      else .ok { entry := .file text interruption }
    | .ok entry => .ok { entry }
    | .error cause => .error (.on "open" p cause)

def system (d : Disk) (root : String) : System := (d.tree root).system d.files.length

/-- Why a directory cannot be made at a path, when those above it are there. -/
def refusal? (d : Disk) (path : String) : Option Fault :=
  let refused (cause : Cause) : Option Fault := some (.on "mkdir" (Name.shown path) cause)
  if d.files.has path then refused .notDirectory
  else if Name.hasNul path then refused .invalid
  else if isLongName (Path.base path) || isLongPath path then refused .tooLong
  else none

def makeDirectory (d : Disk) (path : String) : Except Fault Disk :=
  let above := ancestors path ++ [path]
  match above.findSome? d.refusal? with
  | some fault => .error fault
  | none => .ok { d with directories := distinct (d.directories ++ above) }

def writeFile (d : Disk) (path text : String) : Except Failure Disk :=
  let dir := Path.dir path
  let refused (cause : Cause) : Except Failure Disk :=
    .error ((Fault.on "open" (Name.shown path) cause).failure path)
  match d.makeDirectory dir with
  | .error fault => .error (fault.failure dir)
  | .ok d =>
    if d.isDirectory path then refused .isDirectory
    else if Name.hasNul path then refused .invalid
    else if isLongName (Path.base path) || isLongPath path then refused .tooLong
    else .ok { d with files := d.files.insert path text }

/-- Writes to a locator beneath a root. The way to it may climb out of the root. -/
def write (d : Disk) (root uri text : String) : Except Failure Disk :=
  d.writeFile (Path.join [root, "/", Name.ofLocator uri]) text

/-- The disk with a file put at a path, or a directory if the path ends in a slash. -/
def place (d : Disk) (root name text : String) : Disk :=
  let path := Path.join [root, name]
  if Text.endsWith name "/" then { d with directories := distinct (d.directories ++ [path]) }
  else { d with files := d.files.insert path text }

def ofList (root : String) (files : List (String × String)) : Disk :=
  files.foldl (fun d (name, text) => d.place root name text) { directories := [root] }

end Disk
end Files
end ClientGen
