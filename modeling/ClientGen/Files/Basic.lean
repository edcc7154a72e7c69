import ClientGen.Files.Path
import ClientGen.Source.Failure

/-! # Files

Interface files come from file systems, which open a path to one file or to the
files of a directory. Reading a file may fail before or after its text.
-/

namespace ClientGen
namespace Files

open Source (Failure)

inductive Kind where
  | none | thrift | protobuf | descriptor
deriving DecidableEq, Repr, Inhabited

namespace Kind

def name : Kind → String
  | none => "none"
  | thrift => "thrift"
  | protobuf => "protobuf"
  | descriptor => "protobuf-descriptor"

/-- The name of a kind by its number; numbers beyond the kinds have one too. -/
def nameOf : Nat → String
  | 0 => none.name
  | 1 => thrift.name
  | 2 => protobuf.name
  | 3 => descriptor.name
  | n => "unkown-" ++ Text.ofNat n

def ofPath (path : String) : Kind :=
  match Path.ext path with
  | ".thrift" => thrift
  | ".proto" => protobuf
  | ".protoset" => descriptor
  | _ => none

end Kind

/-- What reading a file gives. -/
inductive Body where
  | text (s : String)
  /-- The file cannot be opened for reading. -/
  | unopened (f : Failure)
  /-- Reading fails after some text. -/
  | interrupted (s : String) (f : Failure)
deriving Repr, Inhabited

structure SourceFile where
  path : String
  kind : Kind
  body : Body
deriving Repr, Inhabited

def SourceFile.ofText (path text : String) (kind : Kind) : SourceFile :=
  { path, kind, body := .text text }

def SourceFile.read (f : SourceFile) : Except Failure String :=
  match f.body with
  | .text s => .ok s
  | .unopened e => .error e
  | .interrupted _ e => .error e

/-- A file system for reading: what a path opens to, and a bound on the number of
paths that its files have. -/
structure System where
  openAt : String → Except Failure (List SourceFile)
  bound : Nat

namespace System

/-- Several file systems as one: the first that opens a path wins. -/
def firstOf (systems : List System) : System where
  openAt uri :=
    match systems.findSome? fun s => (s.openAt uri).toOption with
    | some files => .ok files
    | none => .error (.diagnostic (.fileNotFound uri))
  bound := systems.foldl (fun total s => total + s.bound) 0

end System

/-- What a path opens to in the first of several file systems that opens it. -/
def openFirst (systems : List System) (uri : String) : Except Failure (List SourceFile) :=
  (System.firstOf systems).openAt uri

end Files
end ClientGen
