import ClientGen.Collection.Table
import ClientGen.Document.Comment

/-! # Documents

What one interface file declares, in the same form for both interface languages:
services with their functions, structures with their fields, enumerations, type
names and constants.
-/

namespace ClientGen

inductive Dialect where
  | thrift | protobuf
deriving DecidableEq, Repr, Inhabited

namespace Dialect

def name : Dialect → String
  | thrift => "thrift"
  | protobuf => "protobuf"

end Dialect

inductive FieldType where
  /-- No value: what a function without result returns. -/
  | void
  /-- A built-in scalar. -/
  | base (name : String)
  /-- A declared type, possibly qualified. -/
  | identifier (name : String)
  | list (element : FieldType)
  | set (element : FieldType)
  | map (key value : FieldType)
  /-- A type of a kind that no renderer knows. -/
  | other (kind name : String)
deriving DecidableEq, Repr, Inhabited

namespace FieldType

def scalars : List String :=
  ["byte", "i8", "i16", "i32", "i64", "double", "binary", "string", "bool"]

def text : FieldType → String
  | void => "void"
  | base n => n
  | identifier n => n
  | list e => "list<" ++ e.text ++ ">"
  | set e => "set<" ++ e.text ++ ">"
  | map k v => "map<" ++ k.text ++ "," ++ v.text ++ ">"
  | other _ n => n

end FieldType

/-- What a constant written as a single word or token is. -/
inductive ConstKind where
  | int | double | string | bool | identifier
  | other (name : String)
deriving DecidableEq, Repr, Inhabited

namespace ConstKind

def name : ConstKind → String
  | int => "int"
  | double => "double"
  | string => "string"
  | bool => "bool"
  | identifier => "identifier"
  | other n => n

end ConstKind

/-- A constant as it is written: scalars keep their text, without quotes. -/
inductive Const where
  /-- No constant. -/
  | absent
  | scalar (kind : ConstKind) (text : String)
  | list (items : List Const)
  | map (pairs : List (Const × Const))
deriving Repr, Inhabited

/-- A key with a value, attached to a declaration. -/
structure Annotation where
  key : String
  value : String := ""
  position : Source.Position := {}
deriving DecidableEq, Repr, Inhabited

namespace Annotation

/-- The value of the last annotation with a key. -/
def lookup? (as : List Annotation) (key : String) : Option String :=
  (as.reverse.find? fun a => a.key == key).map (·.value)

end Annotation

/-- The mapping of a service or function to HTTP. -/
structure RouteConfig where
  method : String := ""
  uri : String := ""
  serializer : String := ""
  group : String := ""
  extra : Table String := []
deriving DecidableEq, Repr, Inhabited

structure Field where
  id : Int := 0
  name : String := ""
  type : FieldType := .void
  required : Bool := false
  optional : Bool := false
  default : Const := .absent
  annotations : List Annotation := []
  comments : List Comment := []
  position : Source.Position := {}
deriving Repr, Inhabited

structure Function where
  name : String
  params : List Field := []
  returns : FieldType := .void
  oneway : Bool := false
  route : Option RouteConfig := none
  annotations : List Annotation := []
  comments : List Comment := []
  position : Source.Position := {}
deriving Repr, Inhabited

structure Service where
  name : String
  parent : String := ""
  functions : List Function := []
  route : Option RouteConfig := none
  annotations : List Annotation := []
  comments : List Comment := []
  position : Source.Position := {}
deriving Repr, Inhabited

/-- The words that declare a structure. -/
inductive Variant where
  | struct | union | exception | message
deriving DecidableEq, Repr, Inhabited

namespace Variant

def name : Variant → String
  | struct => "struct"
  | union => "union"
  | exception => "exception"
  | message => "message"

end Variant

structure Struct where
  name : String
  variant : Variant := .struct
  fields : List Field := []
  annotations : List Annotation := []
  comments : List Comment := []
  position : Source.Position := {}
deriving Repr, Inhabited

structure EnumMember where
  name : String
  value : Int := 0
  comments : List Comment := []
  position : Source.Position := {}
deriving Repr, Inhabited

structure Enum where
  name : String
  members : List EnumMember := []
  annotations : List Annotation := []
  comments : List Comment := []
  position : Source.Position := {}
deriving Repr, Inhabited

/-- Another name of a type. -/
structure Typedef where
  name : String
  type : FieldType := .void
  comments : List Comment := []
  position : Source.Position := {}
deriving Repr, Inhabited

structure Constant where
  name : String
  type : FieldType := .void
  value : Const := .absent
  comments : List Comment := []
  position : Source.Position := {}
deriving Repr, Inhabited

/-- A declaration at the top level of a document. -/
inductive Statement where
  | service (s : Service)
  | struct (s : Struct)
  | enum (e : Enum)
  | typedef (t : Typedef)
  | const (c : Constant)
deriving Repr, Inhabited

namespace Statement

def name : Statement → String
  | service s => s.name
  | struct s => s.name
  | enum e => e.name
  | typedef t => t.name
  | const c => c.name

def kind : Statement → String
  | service _ => "ServiceDefinition"
  | struct _ => "StructDefinition"
  | enum _ => "EnumDefinition"
  | typedef _ => "TypedefDefinition"
  | const _ => "ConstDefinition"

end Statement

/-- A tree of package components and the messages and enumerations declared in
each. -/
inductive Namespace where
  | node (name : String) (children : List Namespace) (types : List String)
deriving Repr, Inhabited

/-- What one interface file declares. -/
structure Document where
  path : String
  dialect : Dialect
  namespaceName : String := ""
  includes : List String := []
  entry : Bool := false
  root : Option Namespace := none
  statements : List Statement := []
deriving Repr, Inhabited

namespace Document

def services (d : Document) : List Service :=
  d.statements.filterMap fun
    | .service s => some s
    | _ => none

end Document

/-! ## Namespace trees

A tree of package components. Types are added under a path of components, which
are created where they are missing.
-/

namespace Namespace

def name : Namespace → String
  | node n _ _ => n

def children : Namespace → List Namespace
  | node _ cs _ => cs

def types : Namespace → List String
  | node _ _ ts => ts

def empty : Namespace := node "" [] []

/-- Changes the first child with a name, or a new one at the end. -/
def changeChild (f : Namespace → Namespace) (name : String) : List Namespace → List Namespace
  | [] => [f (node name [] [])]
  | c :: cs => if c.name == name then f c :: cs else c :: changeChild f name cs

/-- Changes the node at a path, creating the nodes that are missing on it. -/
def changeAt (f : Namespace → Namespace) : List String → Namespace → Namespace
  | [], n => f n
  | s :: path, node name children types => node name (changeChild (changeAt f path) s children) types

def touch (path : List String) (n : Namespace) : Namespace := n.changeAt id path

def addType (path : List String) (type : String) (n : Namespace) : Namespace :=
  n.changeAt (fun (node name children types) => node name children (types ++ [type])) path

end Namespace

end ClientGen
