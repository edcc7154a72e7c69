import ClientGen.Text.Basic

/-! # JSON documents

The tree of a JSON text. A number keeps its spelling, since readers disagree on
what a number means; the fields of an object keep their order and repetitions.
-/

namespace ClientGen

inductive Json where
  | null
  | bool (b : Bool)
  | number (spelling : String)
  | string (s : String)
  | array (items : List Json)
  | object (fields : List (String × Json))
deriving Repr, Inhabited

namespace Json

/-- The value of a field; the last one wins. -/
def field? (j : Json) (key : String) : Option Json :=
  match j with
  | object fields => (fields.reverse.find? fun (k, _) => k == key).map (·.2)
  | _ => none

def items : Json → List Json
  | array xs => xs
  | _ => []

def fields : Json → List (String × Json)
  | object fs => fs
  | _ => []

/-! ## Writing

A layout is a JSON document whose scalars and keys are already spelled. It is
written on one line or indented. Strings always escape the two line separators
beyond ASCII; the markup characters only where asked.
-/

/-- A document with spelled scalars and keys. -/
inductive Layout where
  | scalar (spelling : String)
  | array (items : List Layout)
  | object (fields : List (String × Layout))
deriving Repr, Inhabited

/-- Whether strings also escape `<`, `>` and `&`. -/
inductive Markup where
  | kept
  | escaped
deriving DecidableEq, Repr, Inhabited

def escapeChar (markup : Markup) (c : Char) : String :=
  match c.toNat with
  | 34 => "\\\""
  | 92 => "\\\\"
  | 8 => "\\b"
  | 12 => "\\f"
  | 10 => "\\n"
  | 13 => "\\r"
  | 9 => "\\t"
  | n =>
    if n < 32 || n == 0x2028 || n == 0x2029 ||
        (markup == .escaped && (n == 38 || n == 60 || n == 62)) then
      "\\u" ++ Text.hexPadded 4 n
    else String.ofList [c]

def spellString (markup : Markup) (s : String) : String :=
  "\"" ++ String.join (s.toList.map (escapeChar markup)) ++ "\""

namespace Layout

mutual

def compact : Layout → String
  | scalar s => s
  | array items => "[" ++ ",".intercalate (compactItems items) ++ "]"
  | object fields => "\x7b" ++ ",".intercalate (compactFields fields) ++ "\x7d"

def compactItems : List Layout → List String
  | [] => []
  | x :: xs => x.compact :: compactItems xs

def compactFields : List (String × Layout) → List String
  | [] => []
  | (k, v) :: rest => (k ++ ":" ++ v.compact) :: compactFields rest

end

mutual

/-- The document with every item and field on a line of its own, behind `margin`
and one `indent` for each level. Empty arrays and objects stay on their line. -/
def indented (margin indent : String) : Layout → String
  | scalar s => s
  | array [] => "[]"
  | object [] => "\x7b\x7d"
  | array items =>
    "[" ++ ",".intercalate (indentedItems (margin ++ indent) indent items) ++ "\n" ++ margin ++ "]"
  | object fields =>
    "\x7b" ++ ",".intercalate (indentedFields (margin ++ indent) indent fields) ++ "\n" ++ margin ++
      "\x7d"

def indentedItems (margin indent : String) : List Layout → List String
  | [] => []
  | x :: xs => ("\n" ++ margin ++ x.indented margin indent) :: indentedItems margin indent xs

def indentedFields (margin indent : String) : List (String × Layout) → List String
  | [] => []
  | (k, v) :: rest =>
    ("\n" ++ margin ++ k ++ ": " ++ v.indented margin indent) :: indentedFields margin indent rest

end

end Layout

mutual

def layout (markup : Markup) : Json → Layout
  | null => .scalar "null"
  | bool b => .scalar (if b then "true" else "false")
  | number s => .scalar s
  | string s => .scalar (spellString markup s)
  | array items => .array (layoutItems markup items)
  | object fields => .object (layoutFields markup fields)

def layoutItems (markup : Markup) : List Json → List Layout
  | [] => []
  | x :: xs => x.layout markup :: layoutItems markup xs

def layoutFields (markup : Markup) : List (String × Json) → List (String × Layout)
  | [] => []
  | (k, v) :: rest => (spellString markup k, v.layout markup) :: layoutFields markup rest

end

def compact (j : Json) : String := (j.layout .kept).compact

end Json
end ClientGen
