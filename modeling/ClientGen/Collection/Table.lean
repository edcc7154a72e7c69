/-! # Tables

Association lists with one entry for each key, in the order in which the keys
were first given.
-/

namespace ClientGen

/-- Values by name, in the order in which the names were first given. -/
abbrev Table (α : Type) := List (String × α)

namespace Table

variable {α : Type}

def find? (t : Table α) (key : String) : Option α := List.lookup key t

def has (t : Table α) (key : String) : Bool := t.any fun (k, _) => k == key

/-- Gives a key a value: in its place when it has one, else at the end. -/
def insert (t : Table α) (key : String) (value : α) : Table α :=
  match t with
  | [] => [(key, value)]
  | (k, v) :: rest => if k == key then (key, value) :: rest else (k, v) :: insert rest key value

def keys (t : Table α) : List String := t.map (·.1)

/-- The entries in increasing order of their keys. -/
def sorted (t : Table α) : Table α := t.mergeSort fun a b => decide (a.1 ≤ b.1)

/-- The table of a list of entries; a later entry of a key replaces its value. -/
def ofList (entries : List (String × α)) : Table α :=
  entries.foldl (fun t (k, v) => t.insert k v) []

end Table

/-- The distinct elements of a list, each at its first place. -/
def distinct {α : Type} [BEq α] (xs : List α) : List α :=
  xs.foldl (fun seen x => if seen.contains x then seen else seen ++ [x]) []

def sortTexts (xs : List String) : List String := xs.mergeSort fun a b => decide (a ≤ b)

def sortDistinct (xs : List String) : List String := sortTexts (distinct xs)

end ClientGen
