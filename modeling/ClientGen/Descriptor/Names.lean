import ClientGen.Collection.Table
import ClientGen.Descriptor.Outline
import ClientGen.Text.Quoted

/-! # Names and what they stand for

A name is looked for in the scopes around it, from the innermost outward; the
first scope that knows its first segment decides. All packages around a file are
one scope, the outermost one.
-/

namespace ClientGen
namespace Descriptor

/-- What a full name stands for. -/
inductive Symbol where
  /-- A message, and the numbers that it leaves to extensions. -/
  | message (isEntry : Bool) (ranges : List (Int × Int))
  | enum (isOpen : Bool)
  | service
  | extension
  /-- A field, a choice, a member or a procedure. -/
  | leaf
  /-- A package, or a name inside a known scope that nothing declares. -/
  | space
deriving DecidableEq, Repr, Inhabited

def Symbol.isType : Symbol → Bool
  | message _ _ => true
  | enum _ => true
  | _ => false

def Symbol.hasInside : Symbol → Bool
  | extension => false
  | leaf => false
  | _ => true

def Entry.symbol (isModern : Bool) (e : Entry) : Symbol :=
  match e.item with
  | .message (.mk _ _ isEntry body _) =>
    .message isEntry (body.extensionRanges.map fun r => (r.first, r.stop))
  | .enum _ => .enum isModern
  | .service _ => .service
  | .field f => if f.extendee.isSome then .extension else .leaf
  | _ => .leaf

/-- The names that a file declares, and its package. -/
structure Dictionary where
  package : String
  names : List (String × Symbol)
deriving Repr, Inhabited

def Outline.dictionary (o : Outline) : Dictionary :=
  { package := o.package, names := o.entries.map fun e => (e.fullName, e.symbol o.isModern) }

/-- What a full name stands for in a file. The packages around a file are names in
it, too. -/
def Dictionary.find? (d : Dictionary) (name : String) : Option Symbol :=
  match List.lookup name d.names with
  | some s => some s
  | none =>
    if name ≠ "" ∧ (packagesAround d.package).contains name then some .space else none

/-- What a file sees: its own names, and those of the files that it reaches. -/
structure View where
  own : Dictionary
  reached : List Dictionary := []
deriving Repr, Inhabited

def View.find? (v : View) (name : String) : Option Symbol :=
  (v.own :: v.reached).findSome? fun d => d.find? name

/-- Looks a name up in a scope by its first segment. The answer comes with the full
name. -/
def relative? (find? : String → Option Symbol) (scope first name : String) :
    Option (String × Symbol) := do
  let symbol ← find? (qualify scope first)
  let full := qualify scope name
  if first = name then return (full, symbol)
  if symbol.hasInside then return (full, (find? full).getD .space)
  none

def View.inPackages? (v : View) (first name : String) : Option (String × Symbol) :=
  (packagesAround v.own.package).findSome? fun package =>
    if package = "" then (v.find? name).map fun s => (name, s)
    else relative? v.find? package first name

/-- The first answer that is wanted, or failing that the first answer. -/
def preferred {α : Type} (isWanted : α → Bool) (answers : List α) : Option α :=
  answers.find? isWanted <|> answers.head?

/-- What a name stands for inside some messages. Where only types are asked for, a
name of one segment passes over what is none. A name behind a dot is full already. -/
def View.resolve? (v : View) (around : List String) (onlyTypes : Bool) (name : String) :
    Option (String × Symbol) :=
  match Text.dropStart? ['.'] name.toList with
  | some full => (v.find? (String.ofList full)).map fun s => (String.ofList full, s)
  | none =>
    let first := ((Text.cut? name ".").map (·.1)).getD name
    let inside := around.filterMap fun scope => relative? v.own.find? scope first name
    preferred (fun answer => !onlyTypes || answer.2.isType || first ≠ name)
      (inside ++ (v.inPackages? first name).toList)

/-- A declaration that is already known: its file and place, and whether it is a
package. -/
structure Known where
  path : String
  place : Place
  isPackage : Bool := false
deriving DecidableEq, Repr, Inhabited

/-- All declarations of the files that are described together. -/
structure Registry where
  names : Table Known := []
  /-- The numbers of extensions, with the messages that they extend. -/
  extensions : List (String × Int) := []
  /-- The files whose declarations are in. -/
  paths : List String := []
deriving Repr, Inhabited

/-- A complaint about a place in a file. -/
structure Refusal where
  path : String
  complaint : Complaint
deriving DecidableEq, Repr, Inhabited

def isAfter (a b : Place) : Bool := a.line > b.line || (a.line == b.line && a.column > b.column)

namespace Registry

/-- The refusal of a name that is known already. Of two places in one file the
later one is refused. -/
def collision (path : String) (place : Place) (name : String) (known : Known) : Refusal :=
  let place := if known.path = path ∧ isAfter known.place place then known.place else place
  ⟨path, place, "symbol " ++ Text.quoted name ++ " already defined"⟩

def addPackage (path : String) (name : Name) (r : Registry) : Except Refusal Registry :=
  (packagesAround name.text).reverse.foldlM (fun (r : Registry) package =>
    if package = "" then .ok r
    else match r.names.find? package with
      | some known =>
        if known.isPackage then .ok r else .error (collision path name.place package known)
      | none =>
        .ok { r with names := (package, ⟨path, name.place, true⟩) :: r.names }) r

def addFile (o : Outline) (r : Registry) : Except Refusal Registry := do
  if r.paths.contains o.path then return r
  let known (place : Place) : Place := if o.isStandard then {} else place
  let r ← match o.body.package with
    | some name => addPackage o.path { name with place := known name.place } r
    | none => pure r
  let r ← o.entries.foldlM (fun (r : Registry) e =>
    let place := known e.item.name.place
    match r.names.find? e.fullName with
    | some known => .error (collision o.path place e.fullName known)
    | none => .ok { r with names := (e.fullName, ⟨o.path, place, false⟩) :: r.names }) r
  return { r with paths := o.path :: r.paths }

end Registry
end Descriptor
end ClientGen
