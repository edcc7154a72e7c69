import ClientGen.Json.Reader
import ClientGen.Text.Quoted

/-! # What is wrong with a JSON text

Finds the first place at which a text stops being JSON and says what it met there.
A text that only breaks off is told apart from one with a wrong character.
-/

namespace ClientGen
namespace Json

inductive Fault where
  /-- The text breaks off. -/
  | ended
  /-- A character that cannot stand at its place. -/
  | unexpected (c : Char) (place : String)
deriving DecidableEq, Repr, Inhabited

/-- The words for a fault. A character is named by the first byte of its encoding. -/
def Fault.text : Fault → String
  | ended => "unexpected end of JSON input"
  | unexpected c place =>
    let first := (String.ofList [c]).toUTF8.toList.headD 0
    "invalid character " ++ Text.quotedChar (Char.ofNat first.toNat) ++ " " ++ place

namespace Scan

abbrev Step := List Char → Except Fault (List Char)

def digits (cs : List Char) : List Char := cs.dropWhile Char.isDigit

def someDigits (place : String) : Step
  | [] => .error .ended
  | c :: cs => if c.isDigit then .ok (digits cs) else .error (.unexpected c place)

def exponent : Step
  | c :: cs =>
    if c != 'e' && c != 'E' then .ok (c :: cs)
    else
      let unsigned := match cs with
        | '+' :: rest => rest
        | '-' :: rest => rest
        | _ => cs
      someDigits "in exponent of numeric literal" unsigned
  | [] => .ok []

def number (cs : List Char) : Except Fault (List Char) := do
  let unsigned := match cs with
    | '-' :: rest => rest
    | _ => cs
  let whole ← match unsigned with
    | '0' :: rest => pure rest
    | _ => someDigits "in numeric literal" unsigned
  match whole with
  | '.' :: rest => exponent (← someDigits "after decimal point in numeric literal" rest)
  | _ => exponent whole

def word (name : String) : List Char → Step
  | [], cs => .ok cs
  | _ :: _, [] => .error .ended
  | expected :: more, c :: cs =>
    if c = expected then word name more cs
    else .error (.unexpected c
      ("in literal " ++ name ++ " (expecting " ++ Text.quotedChar expected ++ ")"))

/-- Passes over `count` hexadecimal digits of an escape, then over the rest of a
string up to and with its closing quote. -/
def text : Nat → Step
  | _, [] => .error .ended
  | count + 1, c :: cs =>
    if (Text.hexDigit? c).isSome then text count cs
    else .error (.unexpected c "in \\u hexadecimal character escape")
  | 0, '"' :: cs => .ok cs
  | 0, ['\\'] => .error .ended
  | 0, '\\' :: c :: cs =>
    if c = 'u' then text 4 cs
    else if (Reader.escape? c).isSome then text 0 cs
    else .error (.unexpected c "in string escape code")
  | 0, c :: cs =>
    if c.toNat < 32 then .error (.unexpected c "in string literal") else text 0 cs

/-- What may come next inside arrays and objects. -/
inductive Expect where
  /-- A value. -/
  | value
  /-- A value or the end of an empty array. -/
  | firstItem
  /-- A comma or the end of what is open. -/
  | more
  /-- A key or the end of an empty object. -/
  | firstKey
  /-- A key. -/
  | key

/-- Passes over one value and all that follows it. `around` tells for each open array
or object, innermost first, whether it is an object. -/
def values : Nat → List Bool → Expect → List Char → Except Fault Unit
  | 0, _, _, _ => .ok ()
  | fuel + 1, around, expect, cs =>
    let next := values fuel
    match expect, around, Reader.skip cs with
    | .more, [], [] => .ok ()
    | _, _, [] => .error .ended
    | .more, [], c :: _ => .error (.unexpected c "after top-level value")
    | .more, keyed :: outer, c :: rest =>
      if c = ',' then next around (if keyed then .key else .value) rest
      else if c = (if keyed then '\x7d' else ']') then next outer .more rest
      else .error (.unexpected c
        (if keyed then "after object key:value pair" else "after array element"))
    | .firstItem, _ :: outer, ']' :: rest => next outer .more rest
    | .firstKey, _ :: outer, '\x7d' :: rest => next outer .more rest
    | .firstKey, _, c :: rest => key next around c rest
    | .key, _, c :: rest => key next around c rest
    | _, _, c :: rest =>
      match c with
      | '\x7b' => next (true :: around) .firstKey rest
      | '[' => next (false :: around) .firstItem rest
      | '"' => do next around .more (← text 0 rest)
      | 't' => do next around .more (← word "true" "rue".toList rest)
      | 'f' => do next around .more (← word "false" "alse".toList rest)
      | 'n' => do next around .more (← word "null" "ull".toList rest)
      | _ =>
        if c = '-' || c.isDigit then do next around .more (← number (c :: rest))
        else .error (.unexpected c "looking for beginning of value")
where
  /-- A key with its colon. -/
  key (next : List Bool → Expect → List Char → Except Fault Unit) (around : List Bool) (c : Char)
      (rest : List Char) : Except Fault Unit := do
    if c ≠ '"' then .error (.unexpected c "looking for beginning of object key string")
    else
      match Reader.skip (← text 0 rest) with
      | [] => .error .ended
      | ':' :: rest => next around .value rest
      | c :: _ => .error (.unexpected c "after object key")

end Scan

def fault? (s : String) : Option Fault :=
  match Scan.values (s.length + 1) [] .value s.toList with
  | .error fault => some fault
  | .ok () => none

end Json
end ClientGen
