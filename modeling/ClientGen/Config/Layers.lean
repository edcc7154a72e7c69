import ClientGen.Config.Setting

/-! # Layered settings

A setting is looked up in the environment, then in a file, then in the defaults.
Keys of nested maps are joined by dots. Only keys that the file or the defaults
have are looked up, and a plain value in the file hides defaults beneath its key.
-/

namespace ClientGen
namespace Config

structure Layers where
  /-- The value of a variable of the environment; empty ones count as absent. -/
  environment? : String → Option String := fun _ => none
  /-- What the names of variables start with; without it there are none. -/
  namespaceName : Option String := none
  file : List (String × Setting) := []
  defaults : List (String × Setting) := []

def subkey (parent key : String) : String := if parent = "" then key else parent ++ "." ++ key

mutual

/-- The keys of a map that hold plain values, after those in `known`. A map whose
own key is known is hidden. -/
def flatten (known : List String) (parent : String) : List (String × Setting) → List String
  | [] => known
  | (k, v) :: rest => flatten (flattenValue known (subkey parent k) v) parent rest

def flattenValue (known : List String) (key : String) : Setting → List String
  | .map entries => if known.contains key then known else flatten known key entries
  | _ => if known.contains key then known else known ++ [key]

end

namespace Layers

def keys (l : Layers) : List String := flatten (flatten [] "" l.file) "" l.defaults

def override? (l : Layers) (key : String) : Option String := do
  let start ← l.namespaceName
  let value ← l.environment? (Text.replace (Text.upper (start ++ "_" ++ key)) "." "_")
  if value = "" then none else some value

end Layers

/-- The proper starts of a path, shortest first. -/
def starts (path : List String) : List (List String) :=
  (List.range (path.length - 1)).map fun n => path.take (n + 1)

/-- The value of a key in a map; the last one wins. -/
def valueAt? (entries : List (String × Setting)) (key : String) : Option Setting :=
  List.lookup key entries.reverse

/-- Looks a path up, where a key may stand for several segments of it, the longest
first. Null counts as absent. -/
def search? : Nat → Setting → List String → Option Setting
  | _, .null, [] => none
  | _, s, [] => some s
  | 0, _, _ => none
  | fuel + 1, .map entries, path =>
    (List.range path.length).reverse.findSome? fun n => do
      let next ← valueAt? entries (".".intercalate (path.take (n + 1)))
      search? fuel next (path.drop (n + 1))
  | _, _, _ => none

/-- Puts a value into nested maps at a path. -/
def place : List String → Setting → List (String × Setting) → List (String × Setting)
  | [], _, entries => entries
  | [key], value, entries => Table.insert entries key value
  | key :: rest, value, entries =>
    let inner := match valueAt? entries key with
      | some (.map m) => m
      | _ => []
    Table.insert entries key (.map (place rest value inner))

namespace Layers

/-- The value of a key. A variable for a part of the key hides it. -/
def get? (l : Layers) (key : String) : Option Setting :=
  let path := Text.split key "."
  match l.override? key with
  | some value => some (.text value)
  | none =>
    if (starts path).any fun p => (l.override? (".".intercalate p)).isSome then none
    else search? path.length (.map l.file) path <|> search? path.length (.map l.defaults) path

def settings (l : Layers) : List (String × Setting) :=
  l.keys.foldl (fun entries key =>
    match l.get? key with
    | some value => place (Text.split key ".") value entries
    | none => entries) []

end Layers

end Config
end ClientGen
