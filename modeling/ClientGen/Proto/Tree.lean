import ClientGen.Document.Basic

/-! # Protobuf syntax trees

What a Protobuf file says, declaration by declaration, before it is brought into
the common document form. Aggregate option values are flattened: an option tree
holds one entry for each scalar, under its dotted path.
-/

namespace ClientGen
namespace Proto

open Source (Position Origin)

structure OptionTree where
  position : Position := {}
  name : String
  value : Const
deriving Repr, Inhabited

/-- The word in front of an imported path. -/
inductive Modifier where
  | plain | weak | reexported
deriving DecidableEq, Repr, Inhabited

/-- An imported file, with the places of the statement and of the path in it. -/
structure ImportTree where
  position : Position := {}
  modifier : Modifier := .plain
  path : String
  pathPosition : Position := {}
deriving DecidableEq, Repr, Inhabited

inductive TypeTree where
  | name (name : String)
  | map (key value : String)
deriving DecidableEq, Repr, Inhabited

/-- The word in front of a field. -/
inductive Label where
  | none | optional | required | repeated
deriving DecidableEq, Repr, Inhabited

/-- A field of a message. A field of a choice knows the name of the choice. -/
structure FieldTree where
  origin : Origin := {}
  label : Label := .none
  type : TypeTree
  name : String
  number : Int
  oneof : Option String := none
  options : List OptionTree := []
deriving Repr, Inhabited

structure MemberTree where
  origin : Origin := {}
  name : String
  number : Int
  options : List OptionTree := []
deriving Repr, Inhabited

structure EnumTree where
  origin : Origin := {}
  name : String
  members : List MemberTree := []
  options : List OptionTree := []
deriving Repr, Inhabited

inductive MessageTree where
  | mk (origin : Origin) (name : String) (fields : List FieldTree) (messages : List MessageTree)
      (enums : List EnumTree) (options : List OptionTree)
deriving Repr, Inhabited

/-- One end of a remote procedure: a message, perhaps a stream of them. -/
structure EndTree where
  name : String
  stream : Bool := false
deriving DecidableEq, Repr, Inhabited

structure RpcTree where
  origin : Origin := {}
  name : String
  request : EndTree
  response : EndTree
  options : List OptionTree := []
deriving Repr, Inhabited

structure ServiceTree where
  origin : Origin := {}
  name : String
  rpcs : List RpcTree := []
  options : List OptionTree := []
deriving Repr, Inhabited

inductive Definition where
  | message (m : MessageTree)
  | enum (e : EnumTree)
  | service (s : ServiceTree)
deriving Repr, Inhabited

structure Tree where
  edition : String := ""
  package : String := ""
  imports : List ImportTree := []
  options : List OptionTree := []
  definitions : List Definition := []
deriving Repr, Inhabited

end Proto
end ClientGen
