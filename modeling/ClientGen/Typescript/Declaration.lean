import ClientGen.Typescript.Doc
import ClientGen.Value.Basic

/-! # Declarations of the types module

Interfaces, enumerations, type aliases and constants, the index that gathers
modules, and modules of mock samples.
-/

namespace ClientGen
namespace Typescript

open Source (Failure)

structure Property where
  name : String
  type : String
  optional : Bool := false
  /-- Whether an optional property may also be null. -/
  nullable : Bool := false
  comments : List String := []
deriving DecidableEq, Repr, Inhabited

structure Member where
  name : String
  value : Int
  comments : List String := []
deriving DecidableEq, Repr, Inhabited

inductive Declaration where
  | interface (name : String) (comments : List String) (properties : List Property)
  | enum (name : String) (comments : List String) (members : List Member)
  | synonym (name : String) (comments : List String) (type : String)
  | const (name : String) (comments : List String) (type value : String)
deriving Repr, Inhabited

/-- Whether a name may stand for a property without quotes. -/
def isPlainName (n : String) : Bool :=
  let starts (c : Char) : Bool := c == '_' || c == '$' || (c.toNat < 128 && c.isAlpha)
  match n.toList with
  | [] => false
  | c :: cs => starts c && cs.all fun d => starts d || d.isDigit

def propertyName (n : String) : String :=
  if isPlainName n then n else "'" ++ Text.replace n "'" "\\'" ++ "'"

def Property.render (p : Property) : String :=
  doc "  " p.comments ++ "  " ++ propertyName p.name ++ (if p.optional then "?" else "") ++ ": " ++
    p.type ++ (if p.optional && p.nullable then " | null" else "") ++ ";\n"

def Member.render (m : Member) : String :=
  doc "  " m.comments ++ "  " ++ propertyName m.name ++ " = " ++ Text.ofInt m.value ++ ",\n"

namespace Declaration

def render : Declaration → String
  | interface name comments properties =>
    doc "" comments ++ "export interface " ++ name ++ " \x7b\n" ++
      String.join (properties.map Property.render) ++ "\x7d\n"
  | enum name comments members =>
    doc "" comments ++ "export enum " ++ name ++ " \x7b\n" ++
      String.join (members.map Member.render) ++ "\x7d\n"
  | synonym name comments type => doc "" comments ++ "export type " ++ name ++ " = " ++ type ++ ";\n"
  | const name comments type value =>
    doc "" comments ++ "export const " ++ name ++ ": " ++ type ++ " = " ++ value ++ ";\n"

def renderAll (ds : List Declaration) : String := "\n".intercalate (ds.map render)

end Declaration

/-- A module whose contents the index exports, perhaps under a name. -/
structure Export where
  module : String
  name : String := ""
deriving DecidableEq, Repr, Inhabited

def renderIndex (es : List Export) : String :=
  String.join (es.map fun e =>
    if e.name = "" then "export * from '" ++ e.module ++ "';\n"
    else "export * as " ++ e.name ++ " from '" ++ e.module ++ "';\n")

def renderMocks (mocks : List (String × Value)) : Except Failure String := do
  let samples ← mocks.mapM fun (name, value) => do
    let l ← (value.layout .kept : Except Failure Json.Layout)
    return "export const " ++ name ++ "Mock = " ++ l.indented "" "  " ++ ";\n\n"
  let entries := mocks.map fun (name, _) => "  " ++ name ++ ": " ++ name ++ "Mock,\n"
  return String.join samples ++ "export const mocks: Record<string, unknown> = \x7b\n" ++
    String.join entries ++ "\x7d;\n"

end Typescript
end ClientGen
