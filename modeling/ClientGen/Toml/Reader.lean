import ClientGen.Toml.Scalar
import ClientGen.Toml.Seen

/-! # Reading TOML

A TOML text is a list of statements, one on a line: a key with its value, or the
header of a table or of the next table of an array.
-/

namespace ClientGen
namespace Toml

/-- What follows the comment at the start, up to its line end. -/
def comment? (cs : List Char) : Option (List Char) :=
  let rest := cs.dropWhile isAllowed
  if rest.isEmpty || (lineEnd? rest).isSome then some rest else none

/-- Drops blanks, line ends and comments. Each takes a character. -/
def skipLines? : Nat → List Char → Option (List Char)
  | 0, cs => some cs
  | fuel + 1, cs =>
    match skip cs with
    | [] => some []
    | '#' :: rest => do skipLines? fuel (← comment? rest)
    | cs =>
      match lineEnd? cs with
      | some rest => skipLines? fuel rest
      | none => if cs.head? == some '\r' then none else some cs

def endLine? (cs : List Char) : Option (List Char) := do
  let rest ← match skip cs with
    | '#' :: rest => comment? rest
    | cs => some cs
  if rest.isEmpty then some [] else lineEnd? rest

/-- Characters of keys without quotes. -/
def isBareChar (c : Char) : Bool := c == '_' || c == '-' || (c.toNat < 128 && c.isAlphanum)

def keyPart? (cs : List Char) : Option (String × List Char) :=
  if cs.head? == some '"' || cs.head? == some '\'' then short? cs
  else
    let bare := cs.takeWhile isBareChar
    if bare.isEmpty then none else some (String.ofList bare, cs.drop bare.length)

/-- A key: the tables it goes through, and the name at its end. -/
structure Key where
  path : List String
  name : String
deriving DecidableEq, Repr, Inhabited

namespace Key

def parts (k : Key) : List String := k.path ++ [k.name]

/-- A key of parts with dots between them, and what follows it and blanks. Each part
takes a character. -/
def readAux? : Nat → List String → List Char → Option (Key × List Char)
  | 0, _, _ => none
  | fuel + 1, path, cs => do
    let (part, rest) ← keyPart? (skip cs)
    match skip rest with
    | '.' :: rest => readAux? fuel (path ++ [part]) rest
    | rest => return (⟨path, part⟩, rest)

def read? (cs : List Char) : Option (Key × List Char) := readAux? (cs.length + 1) [] cs

end Key

/-- Puts a change at a path of tables, which are made where they are absent. In an
array of tables the path goes on in the last one. -/
def update? (change : List (String × Setting) → Option (List (String × Setting))) :
    List String → List (String × Setting) → Option (List (String × Setting))
  | [], entries => change entries
  | key :: path, entries =>
    match Table.find? entries key with
    | none => do return entries ++ [(key, .map (← update? change path []))]
    | some (.map inner) => do return Table.insert entries key (.map (← update? change path inner))
    | some (.list items) =>
      match items.getLast? with
      | some (.map inner) => do
        return Table.insert entries key (.list (items.dropLast ++ [.map (← update? change path inner)]))
      | _ => none
    | some _ => none

/-- What has been read: the tables, the keys that were given, and the table that
keys go to. -/
structure State where
  entries : List (String × Setting) := []
  seen : Seen := .root
  table : List String := []
deriving Inhabited

namespace State

def assign? (s : State) (key : Key) (value : Setting) : Option State := do
  let seen ← s.seen.assign? s.table key.path key.name
  let entries ← update? (fun inner => some (Table.insert inner key.name value)) (s.table ++ key.path) s.entries
  return { s with seen, entries }

def openTable? (s : State) (key : Key) : Option State := do
  let seen ← (← s.seen.leave? s.table).openTable? key.path key.name
  return { entries := ← update? some key.parts s.entries, seen, table := key.parts }

/-- Opens the next table of an array of tables. -/
def openItem? (s : State) (key : Key) : Option State := do
  let seen ← (← s.seen.leave? s.table).openItem? key.path key.name
  let entries ← update? (fun inner =>
    match Table.find? inner key.name with
    | none => some (inner ++ [(key.name, .list [.map []])])
    | some (.list items) => some (Table.insert inner key.name (.list (items ++ [.map []])))
    | some _ => none) key.path s.entries
  return { entries, seen, table := key.parts }

end State

mutual

def value? : Nat → List Char → Option (Setting × List Char)
  | 0, _ => none
  | fuel + 1, cs =>
    match cs with
    | '[' :: rest => items? fuel [] rest
    | '\x7b' :: rest => fields? fuel true {} rest
    | '"' :: _ => (quoted? cs).map fun (s, rest) => (.text s, rest)
    | '\'' :: _ => (quoted? cs).map fun (s, rest) => (.text s, rest)
    | _ => bare? cs

def items? : Nat → List Setting → List Char → Option (Setting × List Char)
  | 0, _, _ => none
  | fuel + 1, done, cs => do
    match ← skipLines? (cs.length + 1) cs with
    | ']' :: rest => some (.list done.reverse, rest)
    | cs =>
      let (value, rest) ← value? fuel cs
      match ← skipLines? (rest.length + 1) rest with
      | ',' :: rest => items? fuel (value :: done) rest
      | ']' :: rest => some (.list (value :: done).reverse, rest)
      | _ => none

/-- The rest of an inline table, which has no comma before its end. -/
def fields? : Nat → Bool → State → List Char → Option (Setting × List Char)
  | 0, _, _, _ => none
  | fuel + 1, first, s, cs =>
    match skip cs with
    | '\x7d' :: rest => if first then some (.map s.entries, rest) else none
    | cs => do
      let (key, rest) ← Key.read? cs
      let '=' :: rest := rest | none
      let (value, rest) ← value? fuel (skip rest)
      let s ← s.assign? key value
      match skip rest with
      | ',' :: rest => fields? fuel false s rest
      | '\x7d' :: rest => some (.map s.entries, rest)
      | _ => none

end

def header? (close : List Char) (cs : List Char) : Option (Key × List Char) := do
  let (key, rest) ← Key.read? cs
  return (key, ← endLine? (← Text.dropStart? close rest))

/-- Reads statement after statement. Each takes at least a character. -/
def readAux? : Nat → State → List Char → Option State
  | 0, s, _ => some s
  | fuel + 1, s, cs => do
    match ← skipLines? (cs.length + 1) cs with
    | [] => some s
    | '[' :: '[' :: rest =>
      let (key, rest) ← header? [']', ']'] rest
      readAux? fuel (← s.openItem? key) rest
    | '[' :: rest =>
      let (key, rest) ← header? [']'] rest
      readAux? fuel (← s.openTable? key) rest
    | cs =>
      let (key, rest) ← Key.read? cs
      let '=' :: rest := rest | none
      let (value, rest) ← value? (2 * rest.length + 2) (skip rest)
      readAux? fuel (← s.assign? key value) (← endLine? rest)

def read? (content : String) : Option (List (String × Setting)) :=
  let cs := content.toList
  (readAux? (cs.length + 1) {} cs).map (·.entries)

end Toml
end ClientGen
