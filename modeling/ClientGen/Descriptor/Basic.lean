import ClientGen.Descriptor.Syntax
import ClientGen.Text.Basic

/-! # Descriptors

A descriptor says what a Protobuf file declares once every name in it is resolved.
-/

namespace ClientGen
namespace Descriptor

/-- What a field holds. Messages and enumerations are given by full name. -/
inductive FieldKind where
  | scalar (name : String)
  | message (fullName : String)
  | enum (fullName : String)
deriving DecidableEq, Repr, Inhabited

/-- The full name of a field's type, behind a dot; empty for a scalar. -/
def FieldKind.typeName : FieldKind → String
  | scalar _ => ""
  | message n => "." ++ n
  | enum n => "." ++ n

/-- A field, or an extension if it says what it extends. -/
structure FieldDescriptor where
  name : String
  number : Int
  label : Label := .optional
  kind : FieldKind
  /-- The choice that the field belongs to, by its number in the message. -/
  oneof : Option Nat := none
  /-- The full name of the message that an extension extends. -/
  extendee : Option String := none
deriving DecidableEq, Repr, Inhabited

/-- An enumeration. An open one takes numbers that it does not list. -/
structure EnumDescriptor where
  name : String
  members : List (String × Int)
  isOpen : Bool := true
deriving DecidableEq, Repr, Inhabited

/-- A message but for the messages nested in it. The entry of a map field is a
message of its own, made for it. -/
structure MessageHead where
  name : String
  fields : List FieldDescriptor := []
  oneofs : List String := []
  enums : List EnumDescriptor := []
  extensions : List FieldDescriptor := []
  isEntry : Bool := false
deriving DecidableEq, Repr, Inhabited

inductive MessageDescriptor where
  | mk (head : MessageHead) (nested : List MessageDescriptor)
deriving Repr, Inhabited

def MessageDescriptor.head : MessageDescriptor → MessageHead
  | mk head _ => head

structure MethodDescriptor where
  name : String
  input : String
  output : String
  clientStream : Bool
  serverStream : Bool
deriving DecidableEq, Repr, Inhabited

structure ServiceDescriptor where
  name : String
  methods : List MethodDescriptor
deriving DecidableEq, Repr, Inhabited

structure FileDescriptor where
  name : String
  edition : String
  package : String
  dependencies : List String
  messages : List MessageDescriptor
  enums : List EnumDescriptor
  extensions : List FieldDescriptor
  services : List ServiceDescriptor
  /-- Whether some option in the file is an extension. Readers of the binary form
  that do not know the extension keep such an option as unread bytes. -/
  isExtended : Bool := false
deriving Repr, Inhabited

/-- Whether reading the binary form of some descriptors gives the same ones again. -/
def readsBack (files : List FileDescriptor) : Bool := files.all fun f => !f.isExtended

def qualify (scope name : String) : String := if scope = "" then name else scope ++ "." ++ name

/-- A package and those around it, innermost first, down to no package. -/
def packagesAround (package : String) : List String :=
  let segments := if package = "" then [] else Text.split package "."
  (List.range (segments.length + 1)).reverse.map fun n => ".".intercalate (segments.take n)

def scalarNames : List String :=
  ["double", "float", "int32", "int64", "uint32", "uint64", "sint32", "sint64", "fixed32", "fixed64",
    "sfixed32", "sfixed64", "bool", "string", "bytes"]

end Descriptor
end ClientGen
