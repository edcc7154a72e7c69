import ClientGen.Document.Basic
import ClientGen.Json.Basic
import ClientGen.Number.Decimal
import ClientGen.Source.Failure

/-! # Sample values

The values that generated code holds: constants and mock samples. They are
written as JSON; maps are written with their keys in order, records with their
fields as declared.
-/

namespace ClientGen

inductive Value where
  | null
  | bool (b : Bool)
  | int (n : Int)
  | float (x : Float)
  | string (s : String)
  | list (items : List Value)
  /-- Keys without an order of their own. -/
  | map (entries : List (String × Value))
  /-- Fields in the order of their declaration. -/
  | record (fields : List (String × Value))
deriving Inhabited

namespace Value

open Source (Failure)

mutual

/-- A value as plain text, which is how it serves as the key of a map. -/
def text : Value → String
  | null => "<nil>"
  | bool b => if b then "true" else "false"
  | int n => Text.ofInt n
  | float x => Number.plainText x
  | string s => s
  | list items => "[" ++ " ".intercalate (textItems items) ++ "]"
  | map entries => "map[" ++ " ".intercalate (textFields entries) ++ "]"
  | record fields => "map[" ++ " ".intercalate (textFields fields) ++ "]"

def textItems : List Value → List String
  | [] => []
  | v :: vs => v.text :: textItems vs

def textFields : List (String × Value) → List String
  | [] => []
  | (k, v) :: rest => (k ++ ":" ++ v.text) :: textFields rest

end

/-- The map of some entries: a later entry of a key replaces its value, and the
keys are in order. -/
def ofEntries (entries : List (String × Value)) : Value := map (Table.ofList entries).sorted

mutual

/-- A value as JSON. The fields of a record hold strings that are safe inside
markup, at any depth. -/
def layout (markup : Json.Markup) : Value → Except Failure Json.Layout
  | null => .ok (.scalar "null")
  | bool b => .ok (.scalar (if b then "true" else "false"))
  | int n => .ok (.scalar (Text.ofInt n))
  | float x =>
    match Number.Layout.json.text? x with
    | some s => .ok (.scalar s)
    | none => .error .unencodable
  | string s => .ok (.scalar (Json.spellString markup s))
  | list items => do return .array (← layoutItems markup items)
  | map entries => do return .object (← layoutFields markup entries)
  | record fields => do return .object (← layoutFields .escaped fields)

def layoutItems (markup : Json.Markup) : List Value → Except Failure (List Json.Layout)
  | [] => .ok []
  | v :: vs => do return (← v.layout markup) :: (← layoutItems markup vs)

def layoutFields (markup : Json.Markup) :
    List (String × Value) → Except Failure (List (String × Json.Layout))
  | [] => .ok []
  | (k, v) :: rest => do
    return (Json.spellString markup k, ← v.layout markup) :: (← layoutFields markup rest)

end

def literal (v : Value) : Except Failure String := do return (← v.layout .kept).compact

mutual

/-- The value of a JSON document. A number without point and exponent that fits
64 bits is an integer. -/
def ofJson : Json → Value
  | .null => null
  | .bool b => bool b
  | .number s =>
    let whole := !(s.toList.any fun c => c == '.' || c == 'e' || c == 'E')
    match (if whole then Number.int64? s else none) with
    | some n => int n
    | none => float ((Number.float? s).getD 0)
  | .string s => string s
  | .array items => list (ofItems items)
  | .object fields => ofEntries (ofFields fields)

def ofItems : List Json → List Value
  | [] => []
  | j :: js => ofJson j :: ofItems js

def ofFields : List (String × Json) → List (String × Value)
  | [] => []
  | (k, j) :: rest => (k, ofJson j) :: ofFields rest

end

mutual

/-- The value of a written constant. A number that cannot be read stays a text. -/
def ofConst : Const → Value
  | .absent => null
  | .scalar .int text =>
    match Number.int64? text with
    | some n => int n
    | none => string text
  | .scalar .double text =>
    match Number.float? text with
    | some x => float x
    | none => string text
  | .scalar .bool text => bool (text == "true")
  | .scalar _ text => string text
  | .list items => list (ofConstItems items)
  | .map pairs => ofEntries (ofConstPairs pairs)

def ofConstItems : List Const → List Value
  | [] => []
  | c :: cs => ofConst c :: ofConstItems cs

def ofConstPairs : List (Const × Const) → List (String × Value)
  | [] => []
  | (k, v) :: rest => ((ofConst k).text, ofConst v) :: ofConstPairs rest

end

end Value
end ClientGen
