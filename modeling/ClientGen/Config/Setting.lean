import ClientGen.Collection.Table
import ClientGen.Json.Basic
import ClientGen.Number.Decimal

/-! # Settings

The tree of a configuration file, whatever format it is written in, and how its
values are read: generously, so that a text may stand for a number or a truth
value, a single value for a list of one, and a text with commas for a list.
-/

namespace ClientGen

inductive Setting where
  | null
  | bool (b : Bool)
  | int (n : Int)
  | float (x : Float)
  | text (s : String)
  | list (items : List Setting)
  | map (entries : List (String × Setting))
  /-- A date, which no setting takes, and whether it is one without a zone. -/
  | date (isLocal : Bool)
deriving Inhabited

namespace Setting

mutual

def lowerKeys : Setting → Setting
  | list items => list (lowerItems items)
  | map entries => map (lowerEntries entries)
  | s => s

def lowerItems : List Setting → List Setting
  | [] => []
  | s :: rest => s.lowerKeys :: lowerItems rest

def lowerEntries : List (String × Setting) → List (String × Setting)
  | [] => []
  | (k, s) :: rest => (Text.lower k, s.lowerKeys) :: lowerEntries rest

end

/-- Numbers that settings give as texts are written positionally. -/
def numberLayout : Number.Layout := ⟨-400, 400, 1⟩

def asText? : Setting → Option String
  | null => some ""
  | bool b => some (if b then "1" else "0")
  | int n => some (Text.ofInt n)
  | float x => some ((numberLayout.text? x).getD (Number.plainText x))
  | text s => some s
  | _ => none

def trueWords : List String := ["1", "t", "T", "TRUE", "true", "True"]
def falseWords : List String := ["", "0", "f", "F", "FALSE", "false", "False"]

def asBool? : Setting → Option Bool
  | null => some false
  | bool b => some b
  | int n => some (n ≠ 0)
  | float x => some (x != 0)
  | text s =>
    if trueWords.contains s then some true
    else if falseWords.contains s then some false
    else none
  | _ => none

/-- The whole part of a number; beyond 64 bits it is the least integer. -/
def wholePart (x : Float) : Int :=
  match Number.parts x with
  | .finite negative f =>
    let magnitude : Nat :=
      if f.exponent ≥ 0 then f.mantissa <<< f.exponent.toNat
      else f.mantissa >>> (-f.exponent).toNat
    let n : Int := if negative then -(magnitude : Int) else magnitude
    if -(1 <<< 63) ≤ n ∧ n < 1 <<< 63 then n else -(1 <<< 63)
  | .zero _ => 0
  | _ => -(1 <<< 63)

/-- A setting as an integer of 64 bits. -/
def asInt? : Setting → Option Int
  | null => some 0
  | bool b => some (if b then 1 else 0)
  | int n => some (Number.wrap64 n)
  | float x => some (wholePart x)
  | text s => if s = "" then some 0 else Number.int64? s
  | _ => none

def asItems : Setting → List Setting
  | null => []
  | list items => items
  | map [] => []
  | text s => if s = "" then [] else (Text.split s ",").map text
  | s => [s]

def asTexts? (s : Setting) : Option (List String) := s.asItems.mapM asText?

def textEntries? (entries : List (String × Setting)) : Option (Table String) :=
  entries.mapM fun (k, v) => do return (k, ← v.asText?)

mutual

/-- A setting as a table of texts. A list of tables is one table, and a date with
a zone has no entries. -/
def asTable? : Setting → Option (Table String)
  | null => some []
  | date isLocal => if isLocal then none else some []
  | map entries => textEntries? entries
  | list items => itemsTable? items
  | _ => none

def itemsTable? : List Setting → Option (Table String)
  | [] => some []
  | s :: rest => do
    let first ← s.asTable?
    return first ++ (← itemsTable? rest)

end

/-- The entries of a setting that has to be a map. A date has none. -/
def asEntries? : Setting → Option (List (String × Setting))
  | null => some []
  | date _ => some []
  | map entries => some entries
  | _ => none

mutual

/-- The settings of a JSON document; there are none when a number is too large. -/
def ofJson? : Json → Option Setting
  | .null => some null
  | .bool b => some (bool b)
  | .number s => (Number.float? s).map float
  | .string s => some (text s)
  | .array items => do return list (← ofItems? items)
  | .object fields => do return map (← ofFields? fields)

def ofItems? : List Json → Option (List Setting)
  | [] => some []
  | j :: js => do return (← ofJson? j) :: (← ofItems? js)

def ofFields? : List (String × Json) → Option (List (String × Setting))
  | [] => some []
  | (k, j) :: rest => do return (k, ← ofJson? j) :: (← ofFields? rest)

end

end Setting
end ClientGen
