import ClientGen.Config.Setting
import ClientGen.Number.Calendar
import ClientGen.Number.Integer
import ClientGen.Toml.Quoted

/-! # Numbers and dates in TOML

A number takes its digits, signs, points and marks of an exponent, and has to be
well formed then. Underscores stand between two digits. A date takes the
characters of dates and times, and one blank before a time of day.
-/

namespace ClientGen
namespace Toml

open Number (digits? after?)

/-- Whether no underscore stands at an end of a number or next to another one. -/
def separates (cs : List Char) : Bool :=
  cs.head? != some '_' && cs.getLast? != some '_' && !Text.hasInfix ['_', '_'] cs

def dropUnderscores (cs : List Char) : List Char := cs.filter (· != '_')

def dropSign (cs : List Char) : List Char := (Number.splitSign cs).2

/-- Whether a number starts with a zero that it should not have. -/
def hasIdleZero (cs : List Char) : Bool :=
  match dropSign cs with
  | '0' :: c :: _ => c.isDigit
  | _ => false

def decimal? (word : List Char) : Option Int :=
  let cs := dropUnderscores word
  let digits := dropSign cs
  if !separates (dropSign word) || hasIdleZero cs || digits.isEmpty || !digits.all Char.isDigit then none
  else Number.int64? (String.ofList cs)

def inBase? (base : Nat) (digits : List Char) : Option Int := do
  if digits.isEmpty || !separates digits then none
  let n ← Number.digitsValue? base 0 digits
  if n < 1 <<< 63 then some n else none

/-- Whether every underscore of a float stands between two digits. -/
def separatesDigits : List Char → Bool
  | a :: '_' :: b :: rest => a.isDigit && b.isDigit && separatesDigits (b :: rest)
  | [_, '_'] => false
  | _ :: rest => separatesDigits rest
  | [] => true

def hasPoint : List Char → Bool
  | a :: '.' :: b :: rest => a.isDigit && b.isDigit && !rest.contains '.'
  | [_, '.'] => false
  | _ :: rest => hasPoint rest
  | [] => true

def float? (word : List Char) : Option Float :=
  let cs := dropUnderscores word
  if word.head? == some '_' || !separatesDigits word || cs.head? == some '.' || !hasPoint cs || hasIdleZero cs then
    none
  else Number.float? (String.ofList cs)

def baseOf? : Char → Option (Nat × (Char → Bool))
  | 'x' => some (16, fun c => (Text.hexDigit? c).isSome || c == '_')
  | 'o' => some (8, fun c => ('0' ≤ c && c ≤ '7') || c == '_')
  | 'b' => some (2, fun c => c == '0' || c == '1' || c == '_')
  | _ => none

def isNumberChar (c : Char) : Bool := c.isDigit || "+-_.eE".toList.contains c

/-- A number in decimal digits, or one of the words behind a sign. -/
def plainNumber? (cs : List Char) : Option (Setting × List Char) :=
  let word := cs.takeWhile isNumberChar
  let rest := cs.drop word.length
  let infinite := Text.dropStart? "inf".toList rest
  let notNumber := Text.dropStart? "nan".toList rest
  match infinite, notNumber with
  | some rest, _ =>
    if word == [] || word == ['+'] then some (.float (1 / 0), rest)
    else if word == ['-'] then some (.float (-1 / 0), rest)
    else none
  | none, some rest =>
    if word == [] || word == ['+'] || word == ['-'] then some (.float (0 / 0), rest) else none
  | none, none =>
    if rest.head? == some 'i' || rest.head? == some 'n' || word.isEmpty then none
    else if word.any fun c => c == '.' || c == 'e' || c == 'E' then (float? word).map fun x => (.float x, rest)
    else (decimal? word).map fun n => (.int n, rest)

/-- The number at the start. A zero that another digit follows ends before it, so
that what follows is in the way. -/
def number? (cs : List Char) : Option (Setting × List Char) :=
  match cs with
  | '0' :: c :: rest =>
    match baseOf? c with
    | some (base, isDigit) =>
      let digits := rest.takeWhile isDigit
      (inBase? base digits).map fun n => (.int n, rest.drop digits.length)
    | none => if c == '.' || c == 'e' || c == 'E' then plainNumber? cs else some (.int 0, c :: rest)
  | _ => plainNumber? cs

/-- Whether a date or a time of day starts here. -/
def isDateLike (cs : List Char) : Bool :=
  let digits := (cs.takeWhile Char.isDigit).length
  (digits == 4 && (cs.drop 4).head? == some '-') || (digits == 2 && (cs.drop 2).head? == some ':')

def isDateChar (c : Char) : Bool := c.isDigit || "-+:.TtZz".toList.contains c

/-- The characters of a date, which may have a blank before the digit of a time. -/
def dateLength (cs : List Char) : Nat :=
  let first := (cs.takeWhile isDateChar).length
  match cs.drop first with
  | ' ' :: d :: rest => if d.isDigit then first + 2 + (rest.takeWhile isDateChar).length else first
  | _ => first

def time? (cs : List Char) : Option (List Char) := do
  let (hour, cs) ← digits? 2 2 cs
  let (minute, cs) ← digits? 2 2 (← after? ':' cs)
  let (second, cs) ← digits? 2 2 (← after? ':' cs)
  if hour > 23 || minute > 59 || second > 60 then none
  match cs with
  | '.' :: rest =>
    let digits := rest.takeWhile Char.isDigit
    if digits.isEmpty then none else some (rest.drop digits.length)
  | _ => some cs

def date? (cs : List Char) : Option (List Char) := do
  let (year, cs) ← digits? 4 4 cs
  let (month, cs) ← digits? 2 2 (← after? '-' cs)
  let (day, cs) ← digits? 2 2 (← after? '-' cs)
  if Number.isDay year month day then some cs else none

/-- Whether a text is a zone: a letter for none, or a signed distance. -/
def isZone (cs : List Char) : Bool :=
  match cs with
  | [c] => c == 'Z' || c == 'z'
  | sign :: rest =>
    (sign == '+' || sign == '-') &&
      (match digits? 2 2 rest with
        | some (hours, ':' :: rest) =>
          hours ≤ 23 && (match digits? 2 2 rest with
            | some (minutes, rest) => minutes ≤ 59 && rest.isEmpty
            | none => false)
        | _ => false)
  | [] => false

/-- The date of a word: a day, a time of day, or both, and then perhaps a zone. -/
def dated? (word : List Char) : Option Setting :=
  match date? word with
  | none => do
    if (word.drop 2).head? == some ':' && (← time? word).isEmpty then some (.date true) else none
  | some [] => some (.date true)
  | some (c :: rest) => do
    if c != 'T' && c != 't' && c != ' ' then none
    let zone ← time? rest
    if zone.isEmpty then some (.date true) else if isZone zone then some (.date false) else none

/-- The value without quotes at the start, and what follows it. -/
def bare? (cs : List Char) : Option (Setting × List Char) :=
  match Text.dropStart? "true".toList cs, Text.dropStart? "false".toList cs with
  | some rest, _ => some (.bool true, rest)
  | none, some rest => some (.bool false, rest)
  | none, none =>
    if isDateLike cs then
      let word := cs.take (dateLength cs)
      (dated? word).map fun s => (s, cs.drop word.length)
    else number? cs

end Toml
end ClientGen
