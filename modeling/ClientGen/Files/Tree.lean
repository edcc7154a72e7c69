import ClientGen.Collection.Table
import ClientGen.Files.Basic
import ClientGen.Files.Url

/-! # Directory trees

A tree answers paths without a leading slash with files and directories, and it
may refuse. The file system of a tree opens a locator to one file, or to the
files of a directory whose names are wanted.
-/

namespace ClientGen
namespace Files

/-! ## Names on a disk

A name on a disk is a sequence of bytes. Here it is held as a text, in which a byte that is part
of no character stands behind NUL, as the character with its number, and NUL itself is doubled.
So a text without NUL is its own name, names are equal exactly if their bytes are, and slashes
and dots stay where they are.
-/

namespace Name

/-- Stands in front of a character that does not stand for itself. -/
def mark : Char := '\x00'

/-- The name of a byte sequence; `skip` counts the bytes of the last character that are still to
be passed over. -/
def ofBytesAux : Nat → List UInt8 → List Char
  | _, [] => []
  | skip + 1, _ :: rest => ofBytesAux skip rest
  | 0, b :: rest =>
    let (c, size) := Text.decodeFirst b rest
    if b = 0 then mark :: mark :: ofBytesAux 0 rest
    else if size = 1 ∧ 0x80 ≤ b then mark :: Char.ofNat b.toNat :: ofBytesAux 0 rest
    else c :: ofBytesAux (size - 1) rest

def ofBytes (bytes : List UInt8) : String := String.ofList (ofBytesAux 0 bytes)

def ofText (s : String) : String :=
  String.ofList (s.toList.flatMap fun c => if c = mark then [mark, mark] else [c])

/-- The name that a locator gives: the bytes of its path, or its own text when it is none. -/
def ofLocator (uri : String) : String :=
  match Url.parse? uri with
  | some u => ofBytes u.bytes
  | none => ofText uri

def shownAux : List Char → List Char
  | c :: d :: rest =>
    if c = mark then (if d = mark then mark else Text.replacement) :: shownAux rest
    else c :: shownAux (d :: rest)
  | rest => rest

/-- A name as it is shown, with a replacement character for a byte that is part of none. -/
def shown (name : String) : String := String.ofList (shownAux name.toList)

def sizeAux : List Char → Nat
  | c :: d :: rest => if c = mark then 1 + sizeAux rest else c.utf8Size + sizeAux (d :: rest)
  | [c] => c.utf8Size
  | [] => 0

def size (name : String) : Nat := sizeAux name.toList

def isText (name : String) : Bool := !name.toList.contains mark

def hasNul (name : String) : Bool := Text.contains name (String.ofList [mark, mark])

end Name

/-! ## Trees -/

open Source (Failure Code Diagnostic)

/-- Why a tree refuses an access. -/
inductive Cause where
  | absent | denied | notDirectory | isDirectory | invalid | closed | tooLong
  | other (text : String)
deriving DecidableEq, Repr, Inhabited

def Cause.text : Cause → String
  | absent => "file does not exist"
  | denied => "permission denied"
  | notDirectory => "not a directory"
  | isDirectory => "is a directory"
  | invalid => "invalid argument"
  | closed => "file already closed"
  | tooLong => "file name too long"
  | other text => text

/-- A refused access: its cause and, where they are known, what was tried on
which path. -/
structure Fault where
  attempt : Option (String × String) := none
  cause : Cause
deriving DecidableEq, Repr, Inhabited

namespace Fault

def on (action path : String) (cause : Cause) : Fault := { attempt := some (action, path), cause }

def text (f : Fault) : String :=
  match f.attempt with
  | some (action, path) => action ++ " " ++ path ++ ": " ++ f.cause.text
  | none => f.cause.text

/-- The diagnostic of a fault that came up about a path. Only a missing file is
named by that path; other faults name the path that was refused. -/
def diagnostic (path : String) (f : Fault) : Diagnostic :=
  let uri := (f.attempt.map (·.2)).getD path
  match f.cause with
  | .absent => .fileNotFound path
  | .denied => { location := { uri }, code := Code.permissionDenied, message := f.text }
  | _ => { location := { uri }, code := Code.unknownFatal, message := f.text }

def failure (path : String) (f : Fault) : Failure := .diagnostic (f.diagnostic path)

end Fault

structure Child where
  name : String
  isDirectory : Bool
deriving DecidableEq, Repr, Inhabited

inductive Entry where
  /-- A file; reading may break off after its text. -/
  | file (text : String) (interruption : Option Cause)
  | directory (children : Except Fault (List Child))

/-- What opening a path gives. Even then the tree may not tell what it is. -/
structure Handle where
  entry : Entry
  refusal : Option Fault := none

/-- What each path opens to. The root is `"."`. -/
abbrev Tree := String → Except Fault Handle

namespace Tree

def pathOf (uri : String) : String := Path.rooted (Name.ofLocator uri)

def inner (path : String) : String := if path = "/" then "." else Text.dropStart path "/"

def body (path : String) : Entry → Body
  | .file text none => .text text
  | .file text (some cause) => .interrupted text (({ cause } : Fault).failure path)
  | .directory _ => .interrupted "" ((Fault.on "read" path .isDirectory).failure path)

def sourceFile (known : String) (entry : Entry) : SourceFile :=
  { path := known, kind := Kind.ofPath known, body := body known entry }

def childFiles (tree : Tree) (dir : String) (names : List String) :
    Except Failure (List SourceFile) :=
  names.mapM fun name =>
    let path := Path.join [dir, name]
    match tree path with
    | .error fault => .error (fault.failure path)
    | .ok handle => .ok (sourceFile path handle.entry)

def openAt (tree : Tree) (wanted : String → Bool) (uri : String) :
    Except Failure (List SourceFile) :=
  let path := pathOf uri
  let p := inner path
  match tree p with
  | .error fault => .error (fault.failure p)
  | .ok { refusal := some fault, .. } => .error (fault.failure p)
  | .ok { entry := .file text interruption, .. } => .ok [sourceFile path (.file text interruption)]
  | .ok { entry := .directory (.error fault), .. } => .error (fault.failure p)
  | .ok { entry := .directory (.ok children), .. } =>
    let names := (children.filter fun c => !c.isDirectory && wanted c.name).map (·.name)
    match childFiles tree p (sortTexts names) with
    | .ok [] =>
      .error (.diagnostic { location := { uri := path }, code := Code.fileNotFound,
                            message := "found directory " ++ path ++ " but it is empty" })
    | result => result

/-- The names that a directory is opened for: those of interface files. -/
def isInterface (name : String) : Bool := Kind.ofPath name != .none

/-- A tree of at most `bound` files as a file system. -/
def system (tree : Tree) (bound : Nat) (wanted : String → Bool := isInterface) : System :=
  { openAt := tree.openAt wanted, bound }

end Tree
end Files
end ClientGen
