import ClientGen.Descriptor.Token

/-! # Syntax of schema files

What a Protobuf file says, element by element and with the places that complaints
point to, before anything in it is checked.
-/

namespace ClientGen
namespace Descriptor

/-- A word or a text, and where it starts. -/
structure Name where
  text : String
  place : Place := {}
deriving DecidableEq, Repr, Inhabited

structure Numeral where
  value : Int
  place : Place := {}
deriving DecidableEq, Repr, Inhabited

/-- What a field of a message value is called. -/
inductive LiteralKey where
  | field (name : Name)
  | extension (name : Name)
  /-- The type of a value that stands for any message, behind the host of its name. -/
  | typed (host type : Name)
deriving DecidableEq, Repr, Inhabited

def LiteralKey.place : LiteralKey → Place
  | field name => name.place
  | extension name => name.place
  | typed host _ => host.place

/-- The value of an option. A field of a message value may do without its colon. -/
inductive Value where
  | word (name : Name)
  | int (n : Numeral)
  | float (place : Place)
  | text (s : Name)
  | list (place : Place) (items : List Value)
  | message (place : Place) (fields : List (LiteralKey × Bool × Value))
deriving Repr, Inhabited

def Value.place : Value → Place
  | word name => name.place
  | int n => n.place
  | float place => place
  | text s => s.place
  | list place _ => place
  | message place _ => place

/-- A part of the name of an option; extensions stand in parentheses. -/
structure OptionPart where
  name : Name
  isExtension : Bool := false
deriving DecidableEq, Repr, Inhabited

/-- An option and its value. The name has at least one part. -/
structure OptionDecl where
  first : OptionPart
  rest : List OptionPart := []
  value : Value
deriving Repr, Inhabited

def OptionDecl.place (o : OptionDecl) : Place := o.first.name.place

/-- The word in front of a field. -/
inductive Label where
  | optional | required | repeated
deriving DecidableEq, Repr, Inhabited

/-- The last number of a range. -/
inductive RangeEnd where
  /-- The range is one number. -/
  | same
  | upTo (n : Numeral)
  /-- The largest number there is. -/
  | largest
deriving DecidableEq, Repr, Inhabited

structure RangeDecl where
  first : Numeral
  last : RangeEnd := .same
deriving DecidableEq, Repr, Inhabited

structure FieldDecl where
  /-- Where the field starts. -/
  place : Place := {}
  label : Option (Label × Place) := none
  type : Name
  name : Name
  tag : Numeral
  options : List OptionDecl := []
deriving Repr, Inhabited

structure MemberDecl where
  name : Name
  number : Numeral
  options : List OptionDecl := []
deriving Repr, Inhabited

structure EndDecl where
  type : Name
  isStream : Bool := false
deriving DecidableEq, Repr, Inhabited

structure MethodDecl where
  place : Place := {}
  name : Name
  request : EndDecl
  response : EndDecl
  options : List OptionDecl := []
deriving Repr, Inhabited

/-- How an imported file is used. -/
inductive Reach where
  | plain | weak
  /-- Whoever imports the importing file sees the imported one too. -/
  | reexported
deriving DecidableEq, Repr, Inhabited

structure ImportDecl where
  place : Place := {}
  path : Name
  reach : Reach := .plain
deriving DecidableEq, Repr, Inhabited

inductive Element where
  | option (o : OptionDecl)
  | imported (i : ImportDecl)
  | package (place : Place) (name : Name)
  | field (f : FieldDecl)
  /-- A map field; the type of the field is that of the values. -/
  | map (key : Name) (f : FieldDecl)
  /-- A field whose message is declared with it. -/
  | group (f : FieldDecl) (body : List Element)
  | oneof (place : Place) (name : Name) (body : List Element)
  | message (place : Place) (name : Name) (body : List Element)
  | enum (place : Place) (name : Name) (body : List Element)
  | member (m : MemberDecl)
  | extend (place : Place) (extendee : Name) (body : List Element)
  | extensions (place : Place) (ranges : List RangeDecl) (options : List OptionDecl)
  | reserved (ranges : List RangeDecl)
  | reservedNames (names : List Name)
  | service (place : Place) (name : Name) (body : List Element)
  | method (m : MethodDecl)
  | empty
deriving Repr, Inhabited

/-- A whole file: the edition that it names first, and its elements. -/
structure FileSyntax where
  edition : Option Name := none
  elements : List Element := []
deriving Repr, Inhabited

end Descriptor
end ClientGen
