import ClientGen.Document.Basic

/-! # Thrift syntax trees

What a Thrift file says, declaration by declaration, before it is brought into
the common document form.
-/

namespace ClientGen
namespace Thrift

open Source (Position Origin)

inductive TypeTree where
  | name (position : Position) (name : String) (annotations : List Annotation)
  | list (position : Position) (element : TypeTree) (annotations : List Annotation)
  | set (position : Position) (element : TypeTree) (annotations : List Annotation)
  | map (position : Position) (key value : TypeTree) (annotations : List Annotation)
deriving Repr, Inhabited

def TypeTree.annotations : TypeTree → List Annotation
  | name _ _ as => as
  | list _ _ as => as
  | set _ _ as => as
  | map _ _ _ as => as

/-- The word in front of a field. -/
inductive Requirement where
  | none | required | optional
deriving DecidableEq, Repr, Inhabited

/-- A field of a structure, or a parameter or exception of a function. -/
structure FieldTree where
  origin : Origin := {}
  id : Option Int := none
  requirement : Requirement := .none
  type : TypeTree
  name : String
  default : Const := .absent
  annotations : List Annotation := []
deriving Repr, Inhabited

structure ConstTree where
  origin : Origin := {}
  type : TypeTree
  name : String
  value : Const
deriving Repr, Inhabited

/-- Another name of a type. -/
structure TypedefTree where
  origin : Origin := {}
  type : TypeTree
  name : String
  annotations : List Annotation := []
deriving Repr, Inhabited

structure MemberTree where
  origin : Origin := {}
  name : String
  value : Option Int := none
  annotations : List Annotation := []
deriving Repr, Inhabited

structure EnumTree where
  origin : Origin := {}
  name : String
  members : List MemberTree := []
  annotations : List Annotation := []
deriving Repr, Inhabited

structure StructTree where
  origin : Origin := {}
  variant : Variant
  name : String
  fields : List FieldTree := []
  annotations : List Annotation := []
deriving Repr, Inhabited

/-- A function; no result type means that it returns nothing. -/
structure FunctionTree where
  origin : Origin := {}
  oneway : Bool := false
  returns : Option TypeTree := none
  name : String
  params : List FieldTree := []
  throws : List FieldTree := []
  annotations : List Annotation := []
deriving Repr, Inhabited

structure ServiceTree where
  origin : Origin := {}
  name : String
  parent : String := ""
  functions : List FunctionTree := []
  annotations : List Annotation := []
deriving Repr, Inhabited

/-- A line that declares nothing itself. -/
inductive Header where
  | included (position : Position) (path : String) (cpp : Bool)
  | namespaced (position : Position) (scope name : String)
deriving DecidableEq, Repr, Inhabited

inductive Definition where
  | const (c : ConstTree)
  | typedef (t : TypedefTree)
  | enum (e : EnumTree)
  | struct (s : StructTree)
  | service (s : ServiceTree)
deriving Repr, Inhabited

/-- A Thrift file: its headers and its declarations, each in order. -/
structure Tree where
  headers : List Header := []
  definitions : List Definition := []
deriving Repr, Inhabited

end Thrift
end ClientGen
