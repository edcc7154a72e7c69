import ClientGen.Config.Setting
import ClientGen.Number.Integer
import ClientGen.Text.Utf8
import ClientGen.Yaml.Timestamp

/-! # What scalars mean

An unquoted word means null, a truth value, a number, a point in time, or else the
text itself. A tag says which of them is meant, and the word has to agree with it;
bytes are given by their letters.
-/

namespace ClientGen

/-! ## Base 64

Bytes as letters, four for every three bytes, with equals signs at the end where
bytes are missing. Line ends between the letters do not count.
-/

namespace Text

def base64Value? (c : Char) : Option Nat :=
  if 'A' ≤ c && c ≤ 'Z' then some (c.toNat - 'A'.toNat)
  else if 'a' ≤ c && c ≤ 'z' then some (c.toNat - 'a'.toNat + 26)
  else if '0' ≤ c && c ≤ '9' then some (c.toNat - '0'.toNat + 52)
  else if c == '+' then some 62
  else if c == '/' then some 63
  else none

/-- The bytes of letters without line ends. -/
def base64Aux : List Char → Option (List UInt8)
  | [] => some []
  | [a, b, '=', '='] => do
    let n := (← base64Value? a) * 64 + (← base64Value? b)
    return [UInt8.ofNat (n / 16)]
  | [a, b, c, '='] => do
    let n := ((← base64Value? a) * 64 + (← base64Value? b)) * 64 + (← base64Value? c)
    return [UInt8.ofNat (n / 1024), UInt8.ofNat (n / 4)]
  | a :: b :: c :: d :: rest => do
    let n := (((← base64Value? a) * 64 + (← base64Value? b)) * 64 + (← base64Value? c)) * 64
      + (← base64Value? d)
    return UInt8.ofNat (n / 65536) :: UInt8.ofNat (n / 256) :: UInt8.ofNat n :: (← base64Aux rest)
  | _ => none

def ofBase64? (s : String) : Option (List UInt8) :=
  base64Aux (s.toList.filter fun c => c != '\n' && c != '\r')

end Text

namespace Yaml

inductive Meaning where
  | null
  | bool (b : Bool)
  | int (n : Int)
  | float (x : Float)
  | time (t : Timestamp)
  | text (s : String)
deriving Inhabited

namespace Meaning

def tag : Meaning → String
  | null => "!!null"
  | bool _ => "!!bool"
  | int _ => "!!int"
  | float _ => "!!float"
  | time _ => "!!timestamp"
  | text _ => "!!str"

def setting : Meaning → Setting
  | null => .null
  | bool b => .bool b
  | int n => .int n
  | float x => .float x
  | time _ => .date false
  | text s => .text s

end Meaning

def nullWords : List String := ["", "~", "null", "Null", "NULL"]

def trueWords : List String := ["true", "True", "TRUE"]
def falseWords : List String := ["false", "False", "FALSE"]

def nanWords : List String := [".nan", ".NaN", ".NAN"]
def infinityWords : List String := [".inf", ".Inf", ".INF"]

def specialNumber? (s : String) : Option Float :=
  if nanWords.contains s then some (0 / 0)
  else if infinityWords.contains (Text.dropStart s "+") then some (1 / 0)
  else if Text.startsWith s "-" && infinityWords.contains (Text.dropStart s "-") then some (-1 / 0)
  else none

def dropSign : List Char → List Char
  | '+' :: rest => rest
  | '-' :: rest => rest
  | cs => cs

/-- Whether what is left of a number is nothing or an exponent. -/
def isExponent : List Char → Bool
  | [] => true
  | c :: rest =>
    let digits := dropSign rest
    (c == 'e' || c == 'E') && !digits.isEmpty && digits.all Char.isDigit

/-- Whether a text has the form of a decimal number. -/
def isDecimal (cs : List Char) : Bool :=
  let cs := dropSign cs
  let whole := cs.takeWhile Char.isDigit
  match cs.drop whole.length with
  | '.' :: rest =>
    let part := rest.takeWhile Char.isDigit
    (!whole.isEmpty || !part.isEmpty) && isExponent (rest.drop part.length)
  | rest => !whole.isEmpty && isExponent rest

def markedInteger? (cs : List Char) : Option Int := do
  let (base, digits) ← match cs with
    | '0' :: 'b' :: rest => some (2, rest)
    | '0' :: 'o' :: rest => some (8, rest)
    | _ => none
  let (negative, digits) := Number.splitSign digits
  if digits.isEmpty then none
  let n ← Number.digitsValue? base 0 digits
  if negative then (if n ≤ 1 <<< 63 then some (-(n : Int)) else none)
  else if n < 1 <<< 63 then some n else none

def integer? (word : String) : Option Int :=
  Number.int64? word <|> do
    let n ← Number.magnitude? word.toList
    if n < 1 <<< 64 then some n else none

/-- The number of a word that starts with a digit or a sign. Underscores do not
count. -/
def number? (s : String) : Option Meaning :=
  let plain := Text.replace s "_" ""
  (integer? plain).map .int
    <|> (if isDecimal plain.toList then (Number.float? plain).map .float else none)
    <|> (markedInteger? plain.toList).map .int

/-- What a word means. Points in time count where `dated` is set. -/
def meaning (dated : Bool) (s : String) : Meaning :=
  if nullWords.contains s then .null
  else if trueWords.contains s then .bool true
  else if falseWords.contains s then .bool false
  else match specialNumber? s with
    | some x => .float x
    | none =>
      match s.toList with
      | c :: _ =>
        if c.isDigit || c == '+' || c == '-' then
          match if dated then Timestamp.ofText? s else none with
          | some t => .time t
          | none => (number? s).getD (.text s)
        else if c == '.' then ((Number.float? s).map Meaning.float).getD (.text s)
        else .text s
      | [] => .null

/-- What an unquoted word without a tag means. -/
def resolve (s : String) : Meaning := meaning true s

def checkedTags : List String := ["!!bool", "!!int", "!!float", "!!null", "!!timestamp"]

/-- What a word with a tag means, in quotes or not. An integer serves as a float;
tags of other kinds say nothing. -/
def tagged? (tag s : String) : Option Meaning :=
  if tag = "!!binary" then (Text.ofBase64? s).map fun bytes => .text (Text.decode bytes)
  else if !checkedTags.contains tag then some (.text s)
  else
    let m := meaning (tag == "!!timestamp") s
    if m.tag = tag then some m
    else match m with
      | .int n => if tag = "!!float" && n < 1 <<< 63 then some (.float (Float.ofInt n)) else none
      | _ => none

def scalar? (tag : Option String) (isQuoted : Bool) (s : String) : Option Meaning :=
  match tag with
  | some tag => tagged? tag s
  | none => some (if isQuoted then .text s else resolve s)

end Yaml

end ClientGen
