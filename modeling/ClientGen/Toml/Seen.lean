import ClientGen.Collection.Table

/-! # The keys that a TOML text has given

A key is given once. A table may be opened once by its header, unless it was made
by a dotted key before; a dotted key may add to the tables that dotted keys of the
same table have made, and to no others.
-/

namespace ClientGen
namespace Toml

inductive Role where
  | value
  | table
  /-- An array of tables, each of which has a header. -/
  | tables
deriving DecidableEq, Repr, Inhabited

/-- A key that was given, and the keys below it. -/
inductive Seen where
  | node (role : Role) (isClosed isDotted : Bool) (keys : List (String × Seen))
deriving Inhabited

namespace Seen

/-- The keys of a text before anything was given. -/
def root : Seen := node .table false false []

def role : Seen → Role
  | node role _ _ _ => role

/-- Whether a table may not be opened again. -/
def isClosed : Seen → Bool
  | node _ isClosed _ _ => isClosed

def keys : Seen → List (String × Seen)
  | node _ _ _ keys => keys

mutual

def closeDotted : Seen → Seen
  | node role isClosed isDotted keys => node role isClosed isDotted (closeKeys keys)

def closeKeys : List (String × Seen) → List (String × Seen)
  | [] => []
  | (k, node role isClosed isDotted keys) :: rest =>
    (k, node role (isClosed || isDotted) false (closeKeys keys)) :: closeKeys rest

end

/-- Changes what is below a path of tables. Where a key is absent, its table is
made by `make`, and `isOpen` says whether one that is there may be entered. -/
def update? (make : Seen) (isOpen : Seen → Bool) (change : Seen → Option Seen) :
    List String → Seen → Option Seen
  | [], s => change s
  | key :: path, node role isClosed isDotted keys => do
    let next ← match Table.find? keys key with
      | none => some make
      | some next => if isOpen next then some next else none
    let next ← update? make isOpen change path next
    return node role isClosed isDotted (Table.insert keys key next)

def through? (change : Seen → Option Seen) (path : List String) (s : Seen) : Option Seen :=
  update? (node .table false false []) (fun next => next.role != .value) change path s

def changeKeys? (change : List (String × Seen) → Option (List (String × Seen))) : Seen → Option Seen
  | node role isClosed isDotted keys => (change keys).map (node role isClosed isDotted)

def openTable? (path : List String) (name : String) : Seen → Option Seen :=
  through? (changeKeys? fun keys =>
    match Table.find? keys name with
    | none => some (Table.insert keys name (node .table true false []))
    | some (node .table false isDotted below) =>
      some (Table.insert keys name (node .table true isDotted below))
    | some _ => none) path

/-- Opens the next table of an array. What the table before it held is forgotten. -/
def openItem? (path : List String) (name : String) : Seen → Option Seen :=
  through? (changeKeys? fun keys =>
    match Table.find? keys name with
    | none => some (Table.insert keys name (node .tables true false []))
    | some (node .tables isClosed isDotted _) =>
      some (Table.insert keys name (node .tables isClosed isDotted []))
    | some _ => none) path

/-- Gives a key below a table that is open, through tables of dotted keys. -/
def assign? (table path : List String) (name : String) : Seen → Option Seen :=
  let give := changeKeys? fun keys =>
    if Table.has keys name then none else some (Table.insert keys name (node .value false true []))
  let isOpen (next : Seen) : Bool := next.role == .table && !next.isClosed
  through? (update? (node .table false true []) isOpen give path) table

/-- Leaves a table: the tables that its dotted keys have made are closed. -/
def leave? (table : List String) : Seen → Option Seen := through? (fun s => some s.closeDotted) table

end Seen
end Toml
end ClientGen
