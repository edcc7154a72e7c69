import ClientGen.Json.Basic
import ClientGen.Yaml.Scalar
import ClientGen.Yaml.Tail

/-! # Writing YAML

A tree as a block of YAML with an indentation of two. A text stands plain where
it would be read back as the same text, as a literal block where it has several
lines, and in quotes otherwise.
-/

namespace ClientGen
namespace Yaml

def oldTruthWords : List String :=
  ["y", "Y", "yes", "Yes", "YES", "on", "On", "ON", "n", "N", "no", "No", "NO", "off", "Off", "OFF"]

/-- Whether a text looks like a number in base sixty, such as `1:20`. -/
def isSexagesimal (s : String) : Bool :=
  let cs := dropSign s.toList
  match Text.split (String.ofList cs) ":" with
  | first :: part :: rest =>
    let isFirst := match first.toList with
      | c :: cs => c.isDigit && cs.all fun c => c.isDigit || c == '_'
      | [] => false
    let isMiddle (p : String) : Bool := match p.toList with
      | [c] => c.isDigit
      | [t, c] => '0' ≤ t && t ≤ '5' && c.isDigit
      | _ => false
    let parts := part :: rest
    let last := parts.getLastD ""
    let (whole, isFraction) := match Text.cut? last "." with
      | some (w, f) => (w, f.toList.all fun c => c.isDigit || c == '_')
      | none => (last, true)
    isFirst && parts.dropLast.all isMiddle && isMiddle whole && isFraction
  | _ => false

/-- Whether a text would be read back as itself without quotes. -/
def readsAsText (s : String) : Bool :=
  !oldTruthWords.contains s && !isSexagesimal s &&
    match resolve s with
    | .text _ => true
    | _ => false

/-- Characters that stand for themselves, the line feed among them. -/
def isPrintable (c : Char) : Bool :=
  let n := c.toNat
  n == 0x0A || (0x20 ≤ n && n ≤ 0x7E) || (0xA0 ≤ n && n ≤ 0xD7FF) ||
    (0xE000 ≤ n && n ≤ 0xFFFD && n != 0xFEFF)

/-- Whether a text holds one character right before another, of some kinds. -/
def hasPair (p q : Char → Bool) : List Char → Bool
  | a :: b :: rest => (p a && q b) || hasPair p q (b :: rest)
  | _ => false

def endsHere (rest : List Char) : Bool :=
  match rest with
  | [] => true
  | c :: _ => c == ' ' || c == '\t'

/-- Whether a later part of a text has a sign that means something in a block: a
colon before a blank, or a number sign after one. -/
def hasSign : Char → List Char → Bool
  | _, [] => false
  | last, c :: rest =>
    (c == ':' && endsHere rest) || (c == '#' && (last == ' ' || last == '\t' || isBreak last))
      || hasSign c rest

/-- Whether a text has signs that mean something in a block. -/
def hasBlockSign (s : String) : Bool :=
  match s.toList with
  | [] => false
  | c :: rest =>
    Text.startsWith s "---" || Text.startsWith s "..." ||
      "#,[]\x7b\x7d&*!|>'\"%@`".toList.contains c ||
      ("?:-".toList.contains c && endsHere rest) || hasSign c rest

/-- What the characters of a text allow. -/
structure Analysis where
  plain : Bool
  singleQuoted : Bool
  block : Bool

def analyse (s : String) : Analysis :=
  let cs := s.toList
  if cs.isEmpty then { plain := true, singleQuoted := true, block := false }
  else
    let isSpace (c : Char) : Bool := c == ' '
    let edge (c : Option Char) : Bool := c.any fun c => isSpace c || isBreak c
    let breakSpace := hasPair isBreak isSpace cs
    let spaceBreak := hasPair isSpace isBreak cs
    let tabs := cs.contains '\t'
    let special := cs.any fun c => c != '\t' && !isPrintable c
    let singleQuoted := !(breakSpace || spaceBreak || tabs || special)
    { plain := singleQuoted && !edge cs.head? && !edge cs.getLast? && !cs.any isBreak && !hasBlockSign s
      singleQuoted
      block := !(spaceBreak || special || cs.getLast? == some ' ') }

def escapeLetter? (n : Nat) : Option Char :=
  List.lookup n
    [(0, '0'), (7, 'a'), (8, 'b'), (9, 't'), (10, 'n'), (11, 'v'), (12, 'f'), (13, 'r'), (0x1B, 'e'),
      (0x22, '"'), (0x5C, '\\'), (0x85, 'N'), (0xA0, '_'), (0x2028, 'L'), (0x2029, 'P')]

/-- A number in capital hexadecimal digits, padded to a width. -/
def hexUpper (width n : Nat) : String := String.ofList ((Text.hexPadded width n).toList.map Char.toUpper)

def doubleQuotedChar (c : Char) : String :=
  let n := c.toNat
  if isPrintable c && !isBreak c && c != '"' && c != '\\' then c.toString
  else match escapeLetter? n with
    | some letter => "\\" ++ letter.toString
    | none =>
      if n ≤ 0xFF then "\\x" ++ hexUpper 2 n
      else if n ≤ 0xFFFF then "\\u" ++ hexUpper 4 n
      else "\\U" ++ hexUpper 8 n

def doubleQuoted (s : String) : String :=
  "\"" ++ String.join (s.toList.map doubleQuotedChar) ++ "\""

def singleQuoted (s : String) : String := "'" ++ Text.replace s "'" "''" ++ "'"

/-- The marks of a literal block: its depth when it starts with a blank or a line
end, and how its last line end is kept. -/
def literalMarks (s : String) : String :=
  let depth := match s.toList with
    | c :: _ => if c == ' ' || isBreak c then "2" else ""
    | [] => ""
  let chomping := if !Text.endsWith s "\n" then "-"
    else if s == "\n" || Text.endsWith s "\n\n" then "+" else ""
  depth ++ chomping

/-- A text of several lines as a block. -/
def literal (margin s : String) : String :=
  let lines := Text.split (Text.dropEnd s "\n") "\n"
  let shown := lines.map fun line => if line = "" then "\n" else "\n" ++ margin ++ line
  "|" ++ literalMarks s ++ String.join shown

/-- A text. `margin` is what its further lines start with. -/
def writeText (margin s : String) : String :=
  let a := analyse s
  if Text.contains s "\n" then
    if a.block then literal margin s else doubleQuoted s
  else if !readsAsText s then doubleQuoted s
  else if a.plain then s
  else if a.singleQuoted then singleQuoted s
  else doubleQuoted s

mutual

/-- What follows the sign of an entry or an item. `margin` is the indentation of
the block around it. -/
def writeValue (margin : String) : Json → String
  | .null => " null"
  | .bool b => if b then " true" else " false"
  | .number n => " " ++ n
  | .string s => " " ++ writeText (margin ++ "  ") s
  | .array [] => " []"
  | .object [] => " \x7b\x7d"
  | .array (x :: xs) => "\n" ++ writeItems (margin ++ "  ") (x :: xs)
  | .object (f :: fs) => "\n" ++ writeFields (margin ++ "  ") (f :: fs)

/-- An item after its dash: a record starts on the same line. -/
def writeItem (margin : String) : Json → String
  | .object ((k, v) :: fs) =>
    " " ++ writeText margin k ++ ":" ++ writeValue (margin ++ "  ") v ++ writeMore (margin ++ "  ") fs
  | .array (x :: xs) =>
    " -" ++ writeItem (margin ++ "  ") x ++ writeMoreItems (margin ++ "  ") xs
  | v => writeValue margin v

def writeItems (margin : String) : List Json → String
  | [] => ""
  | x :: xs => margin ++ "-" ++ writeItem margin x ++ writeMoreItems margin xs

def writeMoreItems (margin : String) : List Json → String
  | [] => ""
  | x :: xs => "\n" ++ margin ++ "-" ++ writeItem margin x ++ writeMoreItems margin xs

def writeFields (margin : String) : List (String × Json) → String
  | [] => ""
  | (k, v) :: fs => margin ++ writeText margin k ++ ":" ++ writeValue margin v ++ writeMore margin fs

def writeMore (margin : String) : List (String × Json) → String
  | [] => ""
  | (k, v) :: fs =>
    "\n" ++ margin ++ writeText margin k ++ ":" ++ writeValue margin v ++ writeMore margin fs

end

def write : Json → String
  | .object (f :: fs) => writeFields "" (f :: fs) ++ "\n"
  | v => Text.dropStart (writeValue "" v) " " ++ "\n"

end Yaml
end ClientGen
